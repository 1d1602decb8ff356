import Codex.Sse.Messages

/-!
# The events of a Copilot response

`copilot/src/mapping.rs` turns the wire events of a chat completion into the turn loop's events.
It opens one message at the first text and closes it in `finalize`; a tool call is added and done
at once.
-/

namespace Codex.Copilot.Mapping

open Protocol.Models Sse.Messages Sse.Usage Tools.FlatNames List

/-- `WireUsage`, with the counter of each of its details. -/
structure WireUsage where
  promptTokens : Int
  completionTokens : Int
  totalTokens : Int
  cachedTokens : Option Int
  reasoningTokens : Option Int
deriving DecidableEq

/-- `WireEvent`, with the constructors of `CopilotResponseEvent` in it. -/
inductive WireEvent where
  | contentDelta (text : String)
  | toolCall (id name args : String)
  | done (raw : String)
  | finishReasonExtended (reason : String)
  | usage (usage : WireUsage)
deriving DecidableEq

structure Mapper where
  responseId : String
  hadToolCall : Bool
  pendingUpstreamReason : Option String
  pendingExtendedReason : Option String
  pendingUsage : Option WireUsage
  finalized : Bool
  assistantText : String
  messageOpened : Bool
deriving DecidableEq

def Mapper.new (responseId : String) : Mapper :=
  ⟨responseId, false, none, none, none, false, "", false⟩

/-- The message that is added, with `content` of its own when it is done. -/
def messageItem (responseId : String) (content : List ContentItem) : ResponseItem :=
  .message (some responseId) "assistant" content none

def callItem (id name args : String) : ResponseItem :=
  let parsed := parseFlatMcpToolName name
  .functionCall (some id) parsed.name parsed.nameSpace args id

variable (mapper : Mapper)

def Mapper.stepWire : WireEvent → Mapper × List ResponseEvent
  | .contentDelta text =>
    ({ mapper with messageOpened := true, assistantText := mapper.assistantText ++ text },
      (if mapper.messageOpened then []
        else [.outputItemAdded (messageItem mapper.responseId [])]) ++ [.outputTextDelta text])
  | .toolCall id name args =>
    let item := callItem id name args
    ({ mapper with hadToolCall := true }, [.outputItemAdded item, .outputItemDone item])
  | .done raw => ({ mapper with pendingUpstreamReason := some raw }, [])
  | .finishReasonExtended reason => ({ mapper with pendingExtendedReason := some reason }, [])
  | .usage usage => ({ mapper with pendingUsage := some usage }, [])

def translateFinishReason (raw : String) : String :=
  match raw with
  | "stop" => "end_turn"
  | "tool_calls" => "tool_use"
  | "length" => "max_tokens"
  | "function_call" => "tool_use"
  | other => other

def projectUsage (usage : WireUsage) : TokenUsage :=
  normalizeTokenUsage ⟨usage.promptTokens, usage.cachedTokens.getD 0, 0, usage.completionTokens,
    usage.reasoningTokens.getD 0, true, some usage.totalTokens, 0, 0⟩

def Mapper.finalize : Mapper × List ResponseEvent :=
  if mapper.finalized then (mapper, [])
  else
    let stopReason := ((mapper.pendingExtendedReason.map translateFinishReason).or
      (mapper.pendingUpstreamReason.map translateFinishReason)).getD
        (if mapper.hadToolCall then "tool_use" else "end_turn")
    ({ mapper with
        finalized := true
        responseId := ""
        pendingExtendedReason := none
        -- only taken where no extended reason is
        pendingUpstreamReason :=
          if mapper.pendingExtendedReason.isSome then mapper.pendingUpstreamReason else none
        pendingUsage := none
        assistantText := if mapper.messageOpened then "" else mapper.assistantText },
      (if mapper.messageOpened then
        [.outputItemDone (messageItem mapper.responseId [.outputText mapper.assistantText])]
      else []) ++
      [.completed (some stopReason) mapper.responseId (mapper.pendingUsage.map projectUsage)
        (if mapper.hadToolCall then none else some true)])

def Mapper.stepAll (mapper : Mapper) : List WireEvent → Mapper × List ResponseEvent
  | [] => (mapper, [])
  | event :: rest =>
    let (next, events) := mapper.stepWire event
    let (last, more) := next.stepAll rest
    (last, events ++ more)

def responseEvents (responseId : String) (wire : List WireEvent) : List ResponseEvent :=
  let (mapper, events) := (Mapper.new responseId).stepAll wire
  events ++ mapper.finalize.2

/-! ## What the turn loop relies on -/

def WireEvent.text? : WireEvent → Option String
  | .contentDelta text => some text
  | _ => none

def WireEvent.call? : WireEvent → Option ResponseItem
  | .toolCall id name args => some (callItem id name args)
  | _ => none

def doneItem? : ResponseEvent → Option ResponseItem
  | .outputItemDone item => some item
  | _ => none

def delta? : ResponseEvent → Option String
  | .outputTextDelta text => some text
  | _ => none

def isCompleted : ResponseEvent → Bool
  | .completed _ _ _ _ => true
  | _ => false

def isMessage : ResponseItem → Bool
  | .message _ _ _ _ => true
  | _ => false

def textOf (wire : List WireEvent) : String := String.join (wire.filterMap WireEvent.text?)

/-- Each text delta finds a message that was added and since when nothing was done. -/
def DeltasReach (active : Bool) : List ResponseEvent → Prop
  | [] => True
  | .outputItemAdded item :: rest => DeltasReach (active || isMessage item) rest
  | .outputItemDone _ :: rest => DeltasReach false rest
  | .outputTextDelta _ :: rest => active = true ∧ DeltasReach active rest
  | _ :: rest => DeltasReach active rest

/-- The items of a response by their first text or their call. -/
def arrivals (message : ResponseItem) : List WireEvent → List ResponseItem
  | [] => []
  | .contentDelta _ :: rest => message :: rest.filterMap WireEvent.call?
  | event :: rest => event.call?.toList ++ arrivals message rest

/-- What the turn loop relies on in the events of a response. -/
structure InOrder (responseId : String) (wire : List WireEvent) (events : List ResponseEvent) :
    Prop where
  completed : ∃ front last, events = front ++ [last] ∧ isCompleted last ∧
    ∀ event ∈ front, isCompleted event = false
  deltas : DeltasReach false events
  messages : ∀ before id role shell phase after,
    events = before ++ .outputItemAdded (.message id role shell phase) :: after →
    ∃ middle rest, after = middle ++ .outputItemDone (.message id role
        [.outputText (String.join (middle.filterMap delta?))] phase) :: rest ∧
      ∀ item ∈ (before ++ middle ++ rest).filterMap doneItem?, isMessage item = false
  order : events.filterMap doneItem? =
    arrivals (messageItem responseId [.outputText (textOf wire)]) wire

/-- No tool call comes after text. -/
def CallsFirst (wire : List WireEvent) : Prop :=
  wire.Pairwise fun earlier later => earlier.text?.isSome → later.call? = none

variable (event : WireEvent)

/-! ## The events in closed form -/

def openEvents : List ResponseEvent :=
  (event.text?.map .outputTextDelta).toList ++
    event.call?.toList.flatMap fun item => [.outputItemAdded item, .outputItemDone item]

variable {responseId : String} {wire : List WireEvent}

theorem text?_contentDelta (text : String) : (WireEvent.contentDelta text).text? = some text := rfl

theorem call?_contentDelta (text : String) : (WireEvent.contentDelta text).call? = none := rfl

@[simp]
theorem textOf_cons (rest : List WireEvent) :
    textOf (event :: rest) = event.text?.getD "" ++ textOf rest := by
  cases text : event.text? <;> simp [textOf, text]

theorem stepWire_state : (mapper.stepWire event).1.responseId = mapper.responseId ∧
      (mapper.stepWire event).1.finalized = mapper.finalized ∧
      (mapper.stepWire event).1.assistantText = mapper.assistantText ++ event.text?.getD "" ∧
      (mapper.stepWire event).1.messageOpened = (mapper.messageOpened || event.text?.isSome) := by
  cases event <;> simp [Mapper.stepWire, WireEvent.text?]

theorem stepAll_state (wire : List WireEvent) :
    (mapper.stepAll wire).1.responseId = mapper.responseId ∧
      (mapper.stepAll wire).1.finalized = mapper.finalized ∧
      (mapper.stepAll wire).1.assistantText = mapper.assistantText ++ textOf wire ∧
      (mapper.stepAll wire).1.messageOpened =
        (mapper.messageOpened || wire.any (·.text?.isSome)) := by
  induction wire generalizing mapper with
  | nil => simp [Mapper.stepAll, textOf]
  | cons event rest ih =>
    have later := ih (mapper.stepWire event).1
    obtain ⟨id, final, text, opened⟩ := stepWire_state mapper event
    rw [id, final, text, opened] at later
    simpa [Mapper.stepAll, String.append_assoc, Bool.or_assoc] using later

/-- Once the message is open, or while no text comes, each event adds its own events. -/
theorem stepAll_events (wire : List WireEvent) (mapper : Mapper)
    (opened : mapper.messageOpened = true ∨ ∀ event ∈ wire, event.text? = none) :
    (mapper.stepAll wire).2 = wire.flatMap openEvents := by
  induction wire generalizing mapper with
  | nil => rfl
  | cons event rest ih =>
    have later := ih (mapper.stepWire event).1
    rw [forall_mem_cons] at opened
    cases event <;>
      simp_all [Mapper.stepAll, Mapper.stepWire, openEvents, WireEvent.text?, WireEvent.call?]

theorem stepAll_closed (wire : List WireEvent) (mapper : Mapper)
    (closed : mapper.messageOpened = false) :
    (∀ event ∈ wire, event.text? = none) ∨ ∃ front text rest,
      wire = front ++ .contentDelta text :: rest ∧ (∀ event ∈ front, event.text? = none) ∧
        (mapper.stepAll wire).2 = front.flatMap openEvents ++
          .outputItemAdded (messageItem mapper.responseId []) ::
            (.contentDelta text :: rest : List WireEvent).flatMap openEvents := by
  induction wire generalizing mapper with
  | nil => exact .inl (by simp)
  | cons event rest ih =>
    cases found : event.text? with
    | some text =>
      cases event with
      | contentDelta text =>
        refine .inr ⟨[], text, rest, rfl, by simp, ?_⟩
        simp only [Mapper.stepAll, Mapper.stepWire, closed]
        rw [stepAll_events _ _ (.inl rfl)]
        rfl
      | _ => cases found
    | none =>
      obtain ⟨id, -, -, opened⟩ := stepWire_state mapper event
      rw [closed, found] at opened
      have single := stepAll_events [event] mapper (.inr (by simp [found]))
      simp only [Mapper.stepAll, append_nil, flatMap_singleton] at single
      rcases ih _ opened with none | ⟨front, text, more, rfl, silent, events⟩
      · exact .inl (forall_mem_cons.mpr ⟨found, none⟩)
      · refine .inr ⟨event :: front, text, more, rfl, ?_, ?_⟩
        · exact forall_mem_cons.mpr ⟨found, silent⟩
        · simp only [Mapper.stepAll, single, events, id, flatMap_cons, append_assoc]

theorem finalize_events {mapper : Mapper} (fresh : mapper.finalized = false) :
    ∃ last, isCompleted last = true ∧ mapper.finalize.2 = (if mapper.messageOpened then
      [.outputItemDone (messageItem mapper.responseId [.outputText mapper.assistantText])]
        else []) ++ [last] := by
  rw [Mapper.finalize, fresh]
  exact ⟨.completed _ _ _ _, rfl, rfl⟩

theorem exists_completed (responseId : String) (wire : List WireEvent) :
    ∃ last, isCompleted last = true ∧ responseEvents responseId wire =
      ((Mapper.new responseId).stepAll wire).2 ++ ((if wire.any (·.text?.isSome) then
        [.outputItemDone (messageItem responseId [.outputText (textOf wire)])] else []) ++
          [last]) := by
  obtain ⟨id, final, text, opened⟩ := stepAll_state (.new responseId) wire
  obtain ⟨last, completes, ends⟩ := finalize_events final
  refine ⟨last, completes, ?_⟩
  simp only [responseEvents, ends, id, text, opened]
  simp [Mapper.new]

theorem filterMap_openEvents {β : Type} {read : ResponseEvent → Option β}
    {source : WireEvent → Option β}
    (agree : ∀ event, (openEvents event).filterMap read = (source event).toList) :
    (wire.flatMap openEvents).filterMap read = wire.filterMap source := by
  rw [filterMap_flatMap, filterMap_eq_flatMap_toList]
  exact flatMap_congr fun event _ => agree event

theorem doneItems_openEvents (wire : List WireEvent) :
    (wire.flatMap openEvents).filterMap doneItem? = wire.filterMap WireEvent.call? :=
  filterMap_openEvents fun event => by cases event <;> rfl

theorem deltas_openEvents (wire : List WireEvent) :
    (wire.flatMap openEvents).filterMap delta? = wire.filterMap WireEvent.text? :=
  filterMap_openEvents fun event => by cases event <;> rfl

/-- None of these events completes the response or adds a message. -/
theorem of_mem_openEvents {event : ResponseEvent} (mem : event ∈ wire.flatMap openEvents) :
    isCompleted event = false ∧ ∀ item, event = .outputItemAdded item → isMessage item = false := by
  obtain ⟨source, -, listed⟩ := mem_flatMap.mp mem
  cases source <;>
    simp [openEvents, WireEvent.text?, WireEvent.call?, callItem] at listed
  · simp [listed, isCompleted]
  · rcases listed with rfl | rfl <;> simp [isCompleted, isMessage]

theorem call?_not_message {item : ResponseItem} (listed : item ∈ wire.filterMap WireEvent.call?) :
    isMessage item = false := by
  obtain ⟨source, -, found⟩ := mem_filterMap.mp listed
  cases source <;> cases found
  rfl

/-- The items are done as they came exactly if no call comes after text. -/
theorem arrivals_eq_iff (wire : List WireEvent) (responseId : String) (content : List ContentItem) :
    wire.filterMap WireEvent.call? ++ (if wire.any (·.text?.isSome) then
        [messageItem responseId content] else []) =
      arrivals (messageItem responseId content) wire ↔ CallsFirst wire := by
  induction wire with
  | nil => simp [arrivals, CallsFirst]
  | cons event rest ih =>
    cases text : event.text? with
    | none =>
      have later : arrivals (messageItem responseId content) (event :: rest) =
          event.call?.toList ++ arrivals (messageItem responseId content) rest := by
        cases event <;> first | rfl | cases text
      rw [later, CallsFirst, pairwise_cons, ← CallsFirst, ← ih]
      cases called : event.call? <;> simp [text, called]
    | some text =>
      cases event with
      | contentDelta text =>
        simp only [arrivals, CallsFirst, pairwise_cons, any_cons, filterMap_cons,
          text?_contentDelta, call?_contentDelta, Option.isSome_some, Bool.true_or, if_true]
        constructor
        · intro same
          have none : rest.filterMap WireEvent.call? = [] := by
            cases calls : rest.filterMap WireEvent.call? with
            | nil => rfl
            | cons item items =>
              rw [calls] at same
              have message := call?_not_message (calls ▸ mem_cons_self)
              rw [(List.cons.inj same).1] at message
              cases message
          rw [filterMap_eq_nil_iff] at none
          exact ⟨fun later mem _ => none later mem,
            pairwise_of_forall_mem_list fun _ _ later mem _ => none later mem⟩
        · rintro ⟨silent, -⟩
          rw [filterMap_eq_nil_iff.mpr fun later mem => silent later mem trivial]
          rfl
      | _ => cases text

/-- Calls while no message is open, and texts while one is, leave what follows as it is. -/
theorem deltasReach_openEvents {active : Bool}
    (quiet : ∀ event ∈ wire, if active then event.call? = none else event.text? = none)
    (events : List ResponseEvent) :
    DeltasReach active (wire.flatMap openEvents ++ events) ↔ DeltasReach active events := by
  induction wire with
  | nil => rfl
  | cons event rest ih =>
    rw [forall_mem_cons] at quiet
    rw [← ih quiet.2]
    cases active <;> cases event <;> first | rfl | exact and_iff_right rfl | cases quiet.1

theorem doneItems_response (responseId : String) (wire : List WireEvent) :
    (responseEvents responseId wire).filterMap doneItem? = wire.filterMap WireEvent.call? ++
      (if wire.any (·.text?.isSome) then
        [messageItem responseId [.outputText (textOf wire)]] else []) := by
  obtain ⟨last, completes, events⟩ := exists_completed responseId wire
  have ends : doneItem? last = none := by cases last <;> first | rfl | cases completes
  have called : ((Mapper.new responseId).stepAll wire).2.filterMap doneItem? =
      wire.filterMap WireEvent.call? := by
    rcases stepAll_closed wire (.new responseId) rfl with
      silent | ⟨front, text, rest, rfl, -, opens⟩
    · rw [stepAll_events _ _ (.inr silent), doneItems_openEvents]
    · rw [opens, filterMap_append, filterMap_append, filterMap_cons_none rfl,
        doneItems_openEvents, doneItems_openEvents]
  rw [events, filterMap_append, called, filterMap_append]
  rw [filterMap_cons_none ends]
  split <;> simp [doneItem?]

/-- The events of a response are in order exactly if no tool call comes after text. -/
theorem response_in_order_iff (responseId : String) (wire : List WireEvent) :
    InOrder responseId wire (responseEvents responseId wire) ↔ CallsFirst wire := by
  have order := arrivals_eq_iff wire responseId [.outputText (textOf wire)]
  rw [← doneItems_response] at order
  refine ⟨fun inOrder => order.mp inOrder.order, fun callsFirst => ?_⟩
  obtain ⟨last, completes, events⟩ := exists_completed responseId wire
  have reach : ∀ active, DeltasReach active [last] := by
    intro active
    cases last <;> trivial
  have notAdded : ∀ item, last ≠ .outputItemAdded item := by
    rintro item rfl
    cases completes
  rcases stepAll_closed wire (.new responseId) rfl with
    silent | ⟨front, text, rest, rfl, silent, opens⟩
  · -- only calls: no message is added
    have none : wire.any (·.text?.isSome) = false := by simpa using silent
    rw [stepAll_events _ _ (.inr silent), none] at events
    refine ⟨⟨_, last, events, completes, fun event mem => (of_mem_openEvents
      (by simpa using mem)).1⟩, ?_, ?_, order.mpr callsFirst⟩
    · rw [events]
      exact (deltasReach_openEvents silent _).mpr (reach false)
    · intro before id role shell phase after split
      have mem : .outputItemAdded (.message id role shell phase) ∈
          responseEvents responseId wire := by simp [split]
      rw [events] at mem
      rcases mem_append.mp mem with listed | listed
      · cases (of_mem_openEvents listed).2 _ rfl
      · exact absurd (by simpa using listed) (notAdded _).symm
  · -- the calls come before the message, which stays open to the end
    have some : (front ++ .contentDelta text :: rest).any (·.text?.isSome) = true := by
      simp [text?_contentDelta]
    rw [opens, some, if_pos rfl, append_assoc, cons_append] at events
    have later := pairwise_cons.mp (pairwise_append.mp callsFirst).2.1
    have textOnly : ∀ event ∈ .contentDelta text :: rest, event.call? = none :=
      forall_mem_cons.mpr ⟨rfl, fun event mem => later.1 event mem rfl⟩
    refine ⟨?_, ?_, ?_, order.mpr callsFirst⟩
    · refine ⟨_, last, events.trans (by simp only [← append_assoc, ← cons_append]; rfl),
        completes, fun event mem => ?_⟩
      simp only [mem_append, mem_cons, not_mem_nil, or_false] at mem
      rcases mem with (listed | rfl | listed) | rfl
      · exact (of_mem_openEvents listed).1
      · rfl
      · exact (of_mem_openEvents listed).1
      · rfl
    · rw [events]
      refine (deltasReach_openEvents silent _).mpr ?_
      exact (deltasReach_openEvents textOnly _).mpr (reach false)
    · intro before id role shell phase after split
      have absent : ∀ {wire : List WireEvent},
          .outputItemAdded (.message id role shell phase) ∉ wire.flatMap openEvents := by
        intro wire listed
        cases (of_mem_openEvents listed).2 _ rfl
      rw [events, append_cons_inj_of_notMem absent (by
        rw [mem_append, not_or]
        exact ⟨absent, by simp [(notAdded _).symm]⟩)] at split
      obtain ⟨rfl, same, rfl⟩ := split
      cases same
      refine ⟨(.contentDelta text :: rest : List _).flatMap openEvents, [last], ?_,
        fun item listed => ?_⟩
      · rw [deltas_openEvents, textOf, filterMap_append,
          filterMap_eq_nil_iff.mpr silent, nil_append]
        rfl
      · have ends : doneItem? last = none := by cases last <;> first | rfl | cases completes
        simp only [filterMap_append, doneItems_openEvents, filterMap_cons_none ends,
          filterMap_nil, append_nil, mem_append] at listed
        exact listed.elim call?_not_message call?_not_message

def explainedCall : List WireEvent :=
  [.contentDelta "let me look", .toolCall "c" "ls" "", .done "tool_calls"]

/-- The call is done before the text that came first. -/
theorem explained_call_out_of_order : (responseEvents "r" explainedCall).filterMap doneItem? =
        [callItem "c" "ls" "", messageItem "r" [.outputText "let me look"]] ∧
      ¬ InOrder "r" explainedCall (responseEvents "r" explainedCall) := by
  refine ⟨by decide +kernel, fun inOrder => ?_⟩
  have order := inOrder.order
  revert order
  decide +kernel

end Codex.Copilot.Mapping
