import Codex.Context.ContextHistory
import Codex.Library.TrailingInsertions
import Mathlib.Data.List.Forall2

/-!
# The history sent with a request

The model of `core/src/context_manager/normalize.rs` and of
`ContextManager::for_prompt`, which runs its three passes in order: calls
without an output get one, outputs without a call are dropped, and images are
replaced when the model does not take them.  The build is a release build, so
`error_or_panic` only logs.
-/

namespace Codex.Context.PromptHistory

open Protocol.Models ContextHistory Library.TrailingInsertions List

/-! ## Missing outputs -/

def fromText (content : String) : FunctionCallOutputPayload := ⟨.text content, none⟩

variable (items : List ResponseItem) (callId : String)

def hasFunctionCallOutput : Bool :=
  items.any fun
    | .functionCallOutput existing _ => existing == callId
    | _ => false

def hasCustomToolCallOutput : Bool :=
  items.any fun
    | .customToolCallOutput existing _ _ => existing == callId
    | _ => false

def hasToolSearchOutput : Bool :=
  items.any fun
    | .toolSearchOutput (some existing) _ _ _ => existing == callId
    | _ => false

/-- The output that `ensure_call_outputs_present` makes up for an item. -/
def missingOutput : ResponseItem → Option ResponseItem
  | .functionCall _ _ _ _ callId =>
    if hasFunctionCallOutput items callId then none
    else some (.functionCallOutput callId (fromText "aborted"))
  | .toolSearchCall _ (some callId) _ _ _ =>
    if hasToolSearchOutput items callId then none
    else some (.toolSearchOutput (some callId) "completed" "client" [])
  | .customToolCall _ _ callId _ _ =>
    if hasCustomToolCallOutput items callId then none
    else some (.customToolCallOutput callId none (fromText "aborted"))
  -- Upstream streams answer a local shell call by a function call output.
  | .localShellCall _ (some callId) _ _ =>
    if hasFunctionCallOutput items callId then none
    else some (.functionCallOutput callId (fromText "aborted"))
  | _ => none

def ensureCallOutputsPresent : List ResponseItem :=
  insertRecorded (recorded (missingOutput items) 0 items) items

/-! ## Orphan outputs -/

def functionCallIds : List String := items.filterMap fun
    | .functionCall _ _ _ _ callId => some callId
    | _ => none

def toolSearchCallIds : List String := items.filterMap fun
    | .toolSearchCall _ callId _ _ _ => callId
    | _ => none

def localShellCallIds : List String := items.filterMap fun
    | .localShellCall _ callId _ _ => callId
    | _ => none

def customToolCallIds : List String := items.filterMap fun
    | .customToolCall _ _ callId _ _ => some callId
    | _ => none

/-- Whether `remove_orphan_outputs` keeps an item of the list. -/
def keeps : ResponseItem → Bool
  | .functionCallOutput callId _ =>
    (functionCallIds items).contains callId || (localShellCallIds items).contains callId
  | .customToolCallOutput callId _ _ => (customToolCallIds items).contains callId
  | .toolSearchOutput callId _ execution _ =>
    if execution == "server" then true
    else
      match callId with
      | some callId => (toolSearchCallIds items).contains callId
      | none => true
  | _ => true

def removeOrphanOutputs : List ResponseItem := items.filter (keeps items)

/-! ## Images -/

inductive InputModality where
  | text
  | image
deriving DecidableEq

def imageContentOmittedPlaceholder : String :=
  "image content omitted because you do not support image input"

def stripContentItem : ContentItem → ContentItem
  | .inputImage _ _ => .inputText imageContentOmittedPlaceholder
  | item => item

def stripOutputContentItem : FunctionCallOutputContentItem → FunctionCallOutputContentItem
  | .inputImage _ _ => .inputText imageContentOmittedPlaceholder
  | item => item

def stripOutput (output : FunctionCallOutputPayload) : FunctionCallOutputPayload :=
  match output.body with
  | .text _ => output
  | .contentItems items => { output with body := .contentItems (items.map stripOutputContentItem) }

/-- The body of the loop of `strip_images_when_unsupported`. -/
def stripItem : ResponseItem → ResponseItem
  | .message id role content phase => .message id role (content.map stripContentItem) phase
  | .functionCallOutput callId output => .functionCallOutput callId (stripOutput output)
  | .customToolCallOutput callId name output =>
    .customToolCallOutput callId name (stripOutput output)
  | .imageGenerationCall id status revisedPrompt _ =>
    .imageGenerationCall id status revisedPrompt ""
  | item => item

variable (inputModalities : List InputModality)

def stripWhen (item : ResponseItem) : ResponseItem :=
  if inputModalities.contains .image then item else stripItem item

def stripImagesWhenUnsupported (items : List ResponseItem) : List ResponseItem :=
  if inputModalities.contains .image then items else items.map stripItem

theorem stripImagesWhenUnsupported_eq (items : List ResponseItem) :
    stripImagesWhenUnsupported inputModalities items = items.map (stripWhen inputModalities) := by
  unfold stripImagesWhenUnsupported stripWhen
  split <;> simp

variable (history : ContextManager)

/-! ## The passes in order -/

def normalizeHistory (inputModalities : List InputModality) : ContextManager :=
  { history with
    items := stripImagesWhenUnsupported inputModalities
        (removeOrphanOutputs (ensureCallOutputsPresent history.items)) }

def forPrompt (inputModalities : List InputModality) : List ResponseItem :=
  (normalizeHistory history inputModalities).items

/-! ## Calls and their outputs -/

inductive AnswerKind where
  | function
  | custom
  | toolSearch
deriving DecidableEq

/-- The kind and id under which an item asks for an answer. -/
def callKey : ResponseItem → Option (AnswerKind × String)
  | .functionCall _ _ _ _ callId => some (.function, callId)
  | .localShellCall _ (some callId) _ _ => some (.function, callId)
  | .customToolCall _ _ callId _ _ => some (.custom, callId)
  | .toolSearchCall _ (some callId) _ _ _ => some (.toolSearch, callId)
  | _ => none

/-- The kind and id under which an item answers a call. -/
def outputKey : ResponseItem → Option (AnswerKind × String)
  | .functionCallOutput callId _ => some (.function, callId)
  | .customToolCallOutput callId _ _ => some (.custom, callId)
  | .toolSearchOutput (some callId) _ _ _ => some (.toolSearch, callId)
  | _ => none

/--
The key under which an output depends on its call.  A tool search that the
server ran needs none, and neither does one without an id.
-/
def dependentKey : ResponseItem → Option (AnswerKind × String)
  | .toolSearchOutput (some callId) _ execution _ =>
    if execution == "server" then none else some (.toolSearch, callId)
  | item => outputKey item

def madeUpOutput : AnswerKind × String → ResponseItem
  | (.function, callId) => .functionCallOutput callId (fromText "aborted")
  | (.custom, callId) => .customToolCallOutput callId none (fromText "aborted")
  | (.toolSearch, callId) => .toolSearchOutput (some callId) "completed" "client" []

variable (key : AnswerKind × String)

/-- Whether the list answers a key. -/
def Answers : Prop := ∃ item ∈ items, outputKey item = some key

/-- Whether the list asks for a key. -/
def Asks : Prop := ∃ item ∈ items, callKey item = some key

/-- An output whose call is not in the list. -/
def Orphan (item : ResponseItem) : Prop := ∃ key, dependentKey item = some key ∧ ¬ Asks items key

variable {items : List ResponseItem} {callId : String} {key : AnswerKind × String}

theorem has_output_iff :
    (hasFunctionCallOutput items callId = true ↔ Answers items (.function, callId)) ∧
      (hasCustomToolCallOutput items callId = true ↔ Answers items (.custom, callId)) ∧
      (hasToolSearchOutput items callId = true ↔ Answers items (.toolSearch, callId)) := by
  simp only [hasFunctionCallOutput, hasCustomToolCallOutput, hasToolSearchOutput, Answers,
    any_eq_true]
  refine ⟨?_, ?_, ?_⟩
  all_goals
    refine exists_congr fun item => and_congr_right' ?_
    cases item
    case toolSearchOutput found _ _ _ => cases found <;> simp [outputKey]
    all_goals simp [outputKey]

/-- The first pass makes up exactly the answers of unanswered calls. -/
theorem missingOutput_eq_some_iff {item output : ResponseItem} :
    missingOutput items item = some output ↔ ∃ key, callKey item = some key ∧ ¬ Answers items key ∧
        output = madeUpOutput key := by
  cases item
  case localShellCall _ callId _ _ =>
    cases callId <;>
      simp [missingOutput, callKey, madeUpOutput, @eq_comm _ output, ← has_output_iff.1]
  case toolSearchCall _ callId _ _ _ =>
    cases callId <;>
      simp [missingOutput, callKey, madeUpOutput, @eq_comm _ output, ← has_output_iff.2.2]
  all_goals simp [missingOutput, callKey, madeUpOutput, @eq_comm _ output,
      ← has_output_iff.1, ← has_output_iff.2.1]

theorem asks_iff : (Asks items (.function, callId) ↔
        callId ∈ functionCallIds items ∨ callId ∈ localShellCallIds items) ∧
      (Asks items (.custom, callId) ↔ callId ∈ customToolCallIds items) ∧
      (Asks items (.toolSearch, callId) ↔ callId ∈ toolSearchCallIds items) := by
  simp only [Asks, functionCallIds, localShellCallIds, customToolCallIds, toolSearchCallIds,
    mem_filterMap, ← exists_or, ← and_or_left]
  refine ⟨?_, ?_, ?_⟩
  all_goals
    refine exists_congr fun item => and_congr_right' ?_
    cases item
    case localShellCall _ found _ _ => cases found <;> simp [callKey]
    case toolSearchCall _ found _ _ _ => cases found <;> simp [callKey]
    all_goals simp [callKey]

variable {item : ResponseItem}

theorem keeps_iff : keeps items item = true ↔ ¬ Orphan items item := by
  cases item
  case toolSearchOutput callId _ execution _ =>
    by_cases server : execution = "server" <;> cases callId <;>
      simp [keeps, Orphan, dependentKey, outputKey, server, asks_iff]
  all_goals simp [keeps, Orphan, dependentKey, outputKey, asks_iff, or_iff_not_imp_left]

@[simp] theorem callKey_madeUpOutput (key : AnswerKind × String) :
    callKey (madeUpOutput key) = none := by
  obtain ⟨kind, callId⟩ := key
  cases kind <;> rfl

@[simp] theorem outputKey_madeUpOutput (key : AnswerKind × String) :
    outputKey (madeUpOutput key) = some key := by
  obtain ⟨kind, callId⟩ := key
  cases kind <;> rfl

theorem dependentKey_madeUpOutput (key : AnswerKind × String) :
    dependentKey (madeUpOutput key) = some key := by
  obtain ⟨kind, callId⟩ := key
  cases kind <;> rfl

theorem outputKey_of_dependentKey (dependent : dependentKey item = some key) :
    outputKey item = some key := by
  cases item
  case toolSearchOutput callId _ execution _ =>
    cases callId
    · exact dependent
    · rw [dependentKey] at dependent
      split at dependent
      · exact nomatch dependent
      · exact dependent
  all_goals exact dependent

/-! ## What the image pass leaves alone -/

section Strip

variable (inputModalities : List InputModality) (item : ResponseItem)

@[simp] theorem callKey_stripWhen : callKey (stripWhen inputModalities item) = callKey item := by
  unfold stripWhen
  split
  · rfl
  · cases item <;> rfl

@[simp] theorem outputKey_stripWhen :
    outputKey (stripWhen inputModalities item) = outputKey item := by
  unfold stripWhen
  split
  · rfl
  · cases item <;> rfl

@[simp] theorem dependentKey_stripWhen :
    dependentKey (stripWhen inputModalities item) = dependentKey item := by
  unfold stripWhen
  split
  · rfl
  · cases item <;> rfl

@[simp] theorem stripWhen_madeUpOutput (key : AnswerKind × String) :
    stripWhen inputModalities (madeUpOutput key) = madeUpOutput key := by
  obtain ⟨kind, callId⟩ := key
  unfold stripWhen
  cases kind <;> simp [madeUpOutput, stripItem, stripOutput, fromText]

theorem stripContentItem_stripContentItem (item : ContentItem) :
    stripContentItem (stripContentItem item) = stripContentItem item := by
  cases item <;> rfl

theorem stripOutput_stripOutput (output : FunctionCallOutputPayload) :
    stripOutput (stripOutput output) = stripOutput output := by
  obtain ⟨body, success⟩ := output
  cases body with
  | text => rfl
  | contentItems items =>
    simp only [stripOutput, map_map]
    congr 2
    refine map_congr_left fun item _ => ?_
    cases item <;> rfl

theorem stripWhen_stripWhen : stripWhen inputModalities (stripWhen inputModalities item) =
      stripWhen inputModalities item := by
  unfold stripWhen
  split
  · rfl
  · cases item <;>
      simp [stripItem, stripOutput_stripOutput, Function.comp_def,
        stripContentItem_stripContentItem]

/-! ## What stands for an image -/

/-- Content in which the placeholder stands for each image, and all else stays. -/
def ImagesReplaced {α : Type} (isImage : α → Bool) (placeholder : α) : List α → List α → Prop :=
  Forall₂ fun before after => after = if isImage before then placeholder else before

def isImageContent : ContentItem → Bool
  | .inputImage _ _ => true
  | _ => false

def isImageOutput : FunctionCallOutputContentItem → Bool
  | .inputImage _ _ => true
  | _ => false

/-- A tool output with its images replaced; a text has none. -/
inductive OutputReplaced : FunctionCallOutputPayload → FunctionCallOutputPayload → Prop
  | text (content : String) (success : Option Bool) :
    OutputReplaced ⟨.text content, success⟩ ⟨.text content, success⟩
  | contentItems {before after : List FunctionCallOutputContentItem} (success : Option Bool) :
    ImagesReplaced isImageOutput (.inputText imageContentOmittedPlaceholder) before after →
      OutputReplaced ⟨.contentItems before, success⟩ ⟨.contentItems after, success⟩

/-- Whether an item is of a kind that can hold an image. -/
def mayHoldImage : ResponseItem → Bool
  | .message _ _ _ _ => true
  | .functionCallOutput _ _ => true
  | .customToolCallOutput _ _ _ => true
  | .imageGenerationCall _ _ _ _ => true
  | _ => false

/-- An item and what a model without image input is sent for it. -/
inductive ItemReplaced : ResponseItem → ResponseItem → Prop
  | message {id : Option String} {role : String} {before after : List ContentItem}
    {phase : Option MessagePhase} :
    ImagesReplaced isImageContent (.inputText imageContentOmittedPlaceholder) before after →
      ItemReplaced (.message id role before phase) (.message id role after phase)
  | functionCallOutput {callId : String} {before after : FunctionCallOutputPayload} :
    OutputReplaced before after →
      ItemReplaced (.functionCallOutput callId before) (.functionCallOutput callId after)
  | customToolCallOutput {callId : String} {name : Option String}
    {before after : FunctionCallOutputPayload} :
    OutputReplaced before after →
      ItemReplaced (.customToolCallOutput callId name before)
        (.customToolCallOutput callId name after)
  | imageGenerationCall {id status : String} {revisedPrompt : Option String} {result : String} :
    ItemReplaced (.imageGenerationCall id status revisedPrompt result)
      (.imageGenerationCall id status revisedPrompt "")
  | other {item : ResponseItem} : mayHoldImage item = false → ItemReplaced item item

theorem outputReplaced_stripOutput (output : FunctionCallOutputPayload) :
    OutputReplaced output (stripOutput output) := by
  obtain ⟨body, success⟩ := output
  cases body with
  | text content => exact .text content success
  | contentItems items =>
    refine .contentItems success (forall₂_map_right_iff.mpr (forall₂_same.mpr fun item _ => ?_))
    cases item <;> rfl

theorem itemReplaced_stripItem : ItemReplaced item (stripItem item) := by
  cases item
  case message =>
    refine .message (forall₂_map_right_iff.mpr (forall₂_same.mpr fun content _ => ?_))
    cases content <;> rfl
  case functionCallOutput => exact .functionCallOutput (outputReplaced_stripOutput _)
  case customToolCallOutput => exact .customToolCallOutput (outputReplaced_stripOutput _)
  case imageGenerationCall => exact .imageGenerationCall
  all_goals exact .other rfl

/-- What is sent for an item: the item, unless images have to be replaced. -/
def SentFor (item sent : ResponseItem) : Prop :=
  if .image ∈ inputModalities then sent = item else ItemReplaced item sent

theorem sentFor_stripWhen : SentFor inputModalities item (stripWhen inputModalities item) := by
  by_cases supported : .image ∈ inputModalities
  · simp [SentFor, stripWhen, supported]
  · simpa [SentFor, stripWhen, supported] using itemReplaced_stripItem item

end Strip

/-! ## The passes together -/

theorem ensureCallOutputsPresent_eq (items : List ResponseItem) : ensureCallOutputsPresent items =
      followed (missingOutput items) items :=
  insertRecorded_recorded_append (missingOutput items) [] items

theorem asks_ensureCallOutputsPresent :
    Asks (ensureCallOutputsPresent items) key ↔ Asks items key := by
  rw [ensureCallOutputsPresent_eq]
  constructor
  · rintro ⟨item, mem, call⟩
    rcases (mem_followed_iff _).mp mem with
      original | ⟨source, -, output⟩
    · exact ⟨item, original, call⟩
    · obtain ⟨made, -, -, rfl⟩ := missingOutput_eq_some_iff.mp output
      simp at call
  · rintro ⟨item, mem, call⟩
    exact ⟨item, (mem_followed_iff _).mpr (.inl mem), call⟩

theorem keeps_ensureCallOutputsPresent (items : List ResponseItem) (item : ResponseItem) :
    keeps (ensureCallOutputsPresent items) item = keeps items item := by
  rw [Bool.eq_iff_iff, keeps_iff, keeps_iff]
  simp only [Orphan, asks_ensureCallOutputsPresent]

theorem keeps_of_callKey (call : callKey item = some key) : keeps items item = true := by
  rw [keeps_iff]
  rintro ⟨dependent, isDependent, -⟩
  cases item <;> first | (cases isDependent; done) | cases call

theorem keeps_missingOutput {item output : ResponseItem}
    (mem : item ∈ items) (missing : missingOutput items item = some output) :
    keeps items item = true ∧ keeps items output = true := by
  obtain ⟨key, call, -, rfl⟩ := missingOutput_eq_some_iff.mp missing
  refine ⟨keeps_of_callKey call, keeps_iff.mpr ?_⟩
  rintro ⟨dependent, isDependent, unasked⟩
  obtain rfl : key = dependent := by simpa [dependentKey_madeUpOutput] using isDependent
  exact unasked ⟨item, mem, call⟩

theorem missingOutput_stripWhen (items : List ResponseItem) (inputModalities : List InputModality)
    (item : ResponseItem) :
    missingOutput items (stripWhen inputModalities item) =
      (missingOutput items item).map (stripWhen inputModalities) := by
  refine Option.ext fun output => ?_
  simp only [Option.map_eq_some_iff, missingOutput_eq_some_iff, callKey_stripWhen]
  constructor
  · rintro ⟨key, call, unanswered, rfl⟩
    exact ⟨madeUpOutput key, ⟨key, call, unanswered, rfl⟩, by simp⟩
  · rintro ⟨made, ⟨key, call, unanswered, rfl⟩, rfl⟩
    exact ⟨key, call, unanswered, by simp⟩

/-- The items of the history that reach the prompt, without made-up ones. -/
def retained (items : List ResponseItem) : List ResponseItem :=
  (items.filter (keeps items)).map (stripWhen inputModalities)

/-- The prompt is the retained items with the missing answers behind them. -/
theorem forPrompt_eq (inputModalities : List InputModality) :
    forPrompt history inputModalities = followed (missingOutput history.items)
        (retained inputModalities history.items) := by
  have kept : removeOrphanOutputs (ensureCallOutputsPresent history.items) =
        followed (missingOutput history.items) (history.items.filter (keeps history.items)) := by
    unfold removeOrphanOutputs
    rw [filter_congr fun item _ =>
        keeps_ensureCallOutputsPresent history.items item,
      ensureCallOutputsPresent_eq]
    exact filter_followed _ fun item mem output missing => keeps_missingOutput mem missing
  unfold forPrompt normalizeHistory
  rw [stripImagesWhenUnsupported_eq, kept]
  exact map_followed _ fun item _ => missingOutput_stripWhen history.items inputModalities item

theorem mem_retained_iff {inputModalities : List InputModality} {found : ResponseItem} :
    found ∈ retained inputModalities items ↔ ∃ item ∈ items, ¬ Orphan items item ∧
        stripWhen inputModalities item = found := by
  simp [retained, mem_map, mem_filter, keeps_iff, and_assoc]

section Paired

variable {history : ContextManager} {inputModalities : List InputModality}

theorem asks_forPrompt {key : AnswerKind × String} (asked : Asks history.items key) :
    Asks (forPrompt history inputModalities) key := by
  obtain ⟨item, mem, call⟩ := asked
  refine ⟨stripWhen inputModalities item, ?_, by simpa using call⟩
  rw [forPrompt_eq, mem_followed_iff, mem_retained_iff]
  exact .inl ⟨item, mem, keeps_iff.mp (keeps_of_callKey call), rfl⟩

theorem answers_of_asks_forPrompt {key : AnswerKind × String}
    (asked : Asks (forPrompt history inputModalities) key) :
    Answers (forPrompt history inputModalities) key := by
  obtain ⟨item, mem, call⟩ := asked
  rw [forPrompt_eq, mem_followed_iff] at mem
  rcases mem with original | ⟨source, -, output⟩
  · by_cases answered : Answers history.items key
    · -- An answer that was already there is kept, since its call is there.
      obtain ⟨source, isMember, -, stripped⟩ := mem_retained_iff.mp original
      have sourceCall : callKey source = some key := by
        rw [← stripped] at call
        simpa using call
      obtain ⟨output, outputMember, outputs⟩ := answered
      refine ⟨stripWhen inputModalities output, ?_, by simpa using outputs⟩
      rw [forPrompt_eq, mem_followed_iff, mem_retained_iff]
      refine .inl ⟨output, outputMember, ?_, rfl⟩
      rintro ⟨dependent, isDependent, unasked⟩
      have same := outputKey_of_dependentKey isDependent
      obtain rfl : key = dependent := Option.some.inj (outputs.symm.trans same)
      exact unasked ⟨source, isMember, sourceCall⟩
    · refine ⟨madeUpOutput key, ?_, by simp⟩
      rw [forPrompt_eq, mem_followed_iff]
      exact .inr ⟨item, original, missingOutput_eq_some_iff.mpr ⟨key, call, answered, rfl⟩⟩
  · obtain ⟨made, -, -, rfl⟩ := missingOutput_eq_some_iff.mp output
    simp at call

theorem not_orphan_forPrompt (mem : item ∈ forPrompt history inputModalities) :
    ¬ Orphan (forPrompt history inputModalities) item := by
  rintro ⟨key, isDependent, unasked⟩
  rw [forPrompt_eq, mem_followed_iff] at mem
  rcases mem with original | ⟨call, original, output⟩
  · obtain ⟨source, -, notOrphan, rfl⟩ := mem_retained_iff.mp original
    rw [dependentKey_stripWhen] at isDependent
    refine notOrphan ⟨key, isDependent, fun asked => unasked ?_⟩
    exact asks_forPrompt asked
  · obtain ⟨made, isCall, -, rfl⟩ := missingOutput_eq_some_iff.mp output
    obtain rfl : made = key := by simpa [dependentKey_madeUpOutput] using isDependent
    obtain ⟨source, isMember, -, rfl⟩ := mem_retained_iff.mp original
    rw [callKey_stripWhen] at isCall
    exact unasked (asks_forPrompt ⟨source, isMember, isCall⟩)

theorem stripWhen_of_mem_forPrompt (mem : item ∈ forPrompt history inputModalities) :
    stripWhen inputModalities item = item := by
  rw [forPrompt_eq, mem_followed_iff] at mem
  rcases mem with original | ⟨call, -, output⟩
  · obtain ⟨source, -, -, rfl⟩ := mem_retained_iff.mp original
    exact stripWhen_stripWhen inputModalities source
  · obtain ⟨made, -, -, rfl⟩ := missingOutput_eq_some_iff.mp output
    exact stripWhen_madeUpOutput inputModalities made

theorem forPrompt_of_items_eq_forPrompt {again : ContextManager}
    (same : again.items = forPrompt history inputModalities) :
    forPrompt again inputModalities = forPrompt history inputModalities := by
  have noOrphans : again.items.filter (keeps again.items) = again.items := by
    rw [filter_eq_self, same]
    exact fun item mem => keeps_iff.mpr (not_orphan_forPrompt mem)
  have noImages : again.items.map (stripWhen inputModalities) = again.items := by
    rw [same]
    refine (map_congr_left fun item mem => stripWhen_of_mem_forPrompt mem).trans (map_id _)
  rw [forPrompt_eq, retained, noOrphans, noImages, ← same]
  refine followed_eq_self _ fun item mem => ?_
  cases missing : missingOutput again.items item with
  | none => rfl
  | some output =>
    obtain ⟨key, call, unanswered, -⟩ := missingOutput_eq_some_iff.mp missing
    rw [same] at mem unanswered
    exact absurd (answers_of_asks_forPrompt ⟨item, mem, call⟩) unanswered

end Paired

open Classical in
/--
The prompt is paired, complete and stable.  Each block of the prompt is an
item of the history that is no orphan, with its images replaced if the model
does not take them, and behind it the made-up answer if it is a call that
nothing in the history answers.
-/
theorem forPrompt_paired (history : ContextManager) (inputModalities : List InputModality) :
    (∀ item ∈ forPrompt history inputModalities, ∀ key,
      callKey item = some key → ∃ output ∈ forPrompt history inputModalities,
          outputKey output = some key) ∧
    (∀ output ∈ forPrompt history inputModalities, ∀ key,
      dependentKey output = some key → ∃ call ∈ forPrompt history inputModalities,
          callKey call = some key) ∧
    (∃ blocks : List (ResponseItem × Option ResponseItem),
      forPrompt history inputModalities = blocks.flatMap (fun block => block.1 :: block.2.toList) ∧
      Forall₂ (SentFor inputModalities)
        (history.items.filter fun item => ¬ Orphan history.items item) (blocks.map Prod.fst) ∧
      ∀ block ∈ blocks, ∀ output, block.2 = some output ↔ ∃ key, callKey block.1 = some key ∧
            ¬ Answers history.items key ∧ output = madeUpOutput key) ∧
    ∀ again : ContextManager, again.items = forPrompt history inputModalities →
        forPrompt again inputModalities = forPrompt history inputModalities := by
  refine ⟨fun item mem key call =>
    answers_of_asks_forPrompt ⟨item, mem, call⟩,
    fun output mem key dependent => ?_, ?_,
    fun again same => forPrompt_of_items_eq_forPrompt same⟩
  · by_contra unasked
    exact not_orphan_forPrompt mem ⟨key, dependent, unasked⟩
  · refine ⟨(retained inputModalities history.items).map fun item =>
      (item, missingOutput history.items item), ?_, ?_, ?_⟩
    · rw [forPrompt_eq, flatMap_map]
      rfl
    · have kept : history.items.filter (keeps history.items) =
          history.items.filter fun item => ¬ Orphan history.items item :=
        filter_congr fun item _ => by rw [Bool.eq_iff_iff, keeps_iff, decide_eq_true_iff]
      rw [map_map, ← kept]
      refine (forall₂_map_right_iff.mpr (forall₂_map_right_iff.mpr (forall₂_same.mpr ?_)))
      exact fun item _ => sentFor_stripWhen inputModalities item
    · intro block mem output
      obtain ⟨item, -, rfl⟩ := mem_map.mp mem
      exact missingOutput_eq_some_iff

end Codex.Context.PromptHistory
