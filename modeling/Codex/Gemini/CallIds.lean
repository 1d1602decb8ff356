import Codex.Gemini.RecordedParts
import Codex.Gemini.WellFormedContents

/-!
# Call ids over the life of a conversation

Call ids are drawn from a counter of the process, and a conversation may go on
in another process after a restart, where the counter starts at zero again.
Within one process no number is drawn twice.  Two processes draw apart if the
spans of their streams do, and every output is then reported under the name of
its call; processes that only serve this conversation never draw apart.
-/

namespace Codex.Gemini.CallIds

open Contents RecordedParts WellFormedContents Protocol.JsonValue List
  Protocol.Models Sse.GenerateContent

/-! ## Conversations -/

/-- A stream of the conversation, with what its decoder reads. -/
structure Stream where
  environment : GeminiEnvironment
  source : List SourceItem

variable (stream : Stream)

def Stream.calls : List (String × String) := callsIn (recorded stream.environment stream.source)

def Stream.numbers : List Nat :=
  (List.range stream.calls.length).map stream.environment.counter.callAt

/-- What the process drew before the stream. -/
def Stream.start : Nat := stream.environment.counter.start

/-- What the process has drawn when the stream has made its calls. -/
def Stream.finish : Nat := stream.environment.counter.drawn stream.calls.length

/-- The stream in a process that has drawn so many numbers before. -/
def Stream.after (drawn : Nat) : Stream :=
  { stream with environment := { stream.environment with counter :=
    { stream.environment.counter with start := drawn + stream.start } } }

/--
The streams of a conversation in one process, one after the other.  Each is
given with what others draw between the stream before and its start.
-/
def runFrom : Nat → List Stream → List Stream
  | _, [] => []
  | drawn, stream :: later => stream.after drawn :: runFrom (stream.after drawn).finish later

/--
A conversation over several processes, each with a counter at zero: whatever
else the history holds, its calls are those that the streams left.
-/
structure Conversation where
  processes : List (List Stream)
  history : List ResponseItem
  recorded : callsIn history = processes.flatMap fun process =>
    (runFrom 0 process).flatMap Stream.calls

def Conversation.callIds (conversation : Conversation) : List String :=
  (callsIn conversation.history).map Prod.fst

/-- No counter wraps around. -/
def Conversation.FewDraws (conversation : Conversation) : Prop :=
  ∀ process ∈ conversation.processes, ∀ stream ∈ runFrom 0 process, stream.finish ≤ 2 ^ 64

/-- One of two streams makes no call or ends before the other starts, as the counters stand. -/
def Apart (first second : Stream) : Prop :=
  first.calls = [] ∨ second.calls = [] ∨ first.finish ≤ second.start ∨
    second.finish ≤ first.start

/-- The streams of different processes are apart. -/
def Conversation.SpansApart (conversation : Conversation) : Prop :=
  conversation.processes.Pairwise fun earlier later =>
    ∀ first ∈ runFrom 0 earlier, ∀ second ∈ runFrom 0 later, Apart first second

/-- No other stream draws while the stream goes on. -/
def Stream.Undisturbed : Prop :=
  ∀ call, stream.environment.counter.beforeSignature call = 0 ∧
    stream.environment.counter.beforeCall call = 0

def Conversation.Undisturbed (conversation : Conversation) : Prop :=
  ∀ process ∈ conversation.processes, ∀ stream ∈ process, stream.Undisturbed

/-- No other stream draws in a process of the conversation. -/
def Conversation.Alone (conversation : Conversation) : Prop :=
  conversation.Undisturbed ∧
    ∀ process ∈ conversation.processes, ∀ stream ∈ process, stream.start = 0

/-- Whether a process makes a call for the conversation. -/
def Calls (process : List Stream) : Prop := ∃ stream ∈ runFrom 0 process, stream.calls ≠ []

variable (name : String)

/-- The `functionResponse` field of an output. -/
def functionResponse (output : FunctionCallOutputPayload) : Value := .object
    [("name", .string name), ("response", .object
        [("output", .string (extractFunctionOutputText output))])]

variable (codec : JsonCodec)

/-- Whether every output of a call is sent under the name of the call. -/
def NamesOutputs (history : List ResponseItem) : Prop :=
  ∀ callId output, .functionCallOutput callId output ∈ history →
    ∀ name, (callId, name) ∈ callsIn history → ∃ turn ∈ conversationToGeminiContents codec history,
        ∃ part ∈ turn.parts, part.get "functionResponse" = some (functionResponse name output)

/-! ## Numbers -/

theorem Stream.fst_calls : stream.calls.map Prod.fst = stream.numbers.map geminiCallId := by
  obtain ⟨count, ids⟩ := callsIn_processFrom stream.environment
    StreamState.initial stream.source
  have known : stream.calls.map Prod.fst = (List.range' 0 count).map fun call =>
        geminiCallId (stream.environment.counter.callAt call) := ids
  have counted : stream.calls.length = count := by
    have sized := congrArg List.length known
    simpa using sized
  rw [known, Stream.numbers, counted, range_eq_range', map_map]
  rfl

theorem drawn_strictMono (counter : CallCounter) : StrictMono counter.drawn :=
  strictMono_nat_of_lt_succ fun call => by
    rw [CallCounter.drawn]
    omega

theorem Stream.start_le_finish : stream.start ≤ stream.finish :=
  (drawn_strictMono _).monotone (Nat.zero_le _)

variable {stream}

/-- Without wrapping a stream draws between what was drawn before and after the call. -/
theorem Stream.callAt_bounds (few : stream.finish ≤ 2 ^ 64) {call : Nat}
    (made : call < stream.calls.length) :
    stream.environment.counter.drawn call ≤ stream.environment.counter.callAt call ∧
      stream.environment.counter.callAt call < stream.environment.counter.drawn (call + 1) := by
  have last : stream.environment.counter.drawn (call + 1) ≤ stream.finish :=
    (drawn_strictMono _).monotone made
  rw [CallCounter.drawn] at last ⊢
  rw [CallCounter.callAt, Nat.mod_eq_of_lt (by omega)]
  omega

theorem Stream.mem_numbers_bounds (few : stream.finish ≤ 2 ^ 64) {number : Nat}
    (drawn : number ∈ stream.numbers) : stream.start ≤ number ∧ number < stream.finish := by
  obtain ⟨call, below, rfl⟩ := mem_map.mp drawn
  have made := mem_range.mp below
  obtain ⟨low, high⟩ := Stream.callAt_bounds few made
  have first := (drawn_strictMono stream.environment.counter).monotone (Nat.zero_le call)
  have last := (drawn_strictMono stream.environment.counter).monotone (Nat.succ_le_of_lt made)
  exact ⟨first.trans low, high.trans_le last⟩

theorem Stream.numbers_increase (few : stream.finish ≤ 2 ^ 64) :
    stream.numbers.Pairwise (· < ·) := by
  rw [Stream.numbers, pairwise_map]
  refine pairwise_lt_range.imp_of_mem fun first second smaller => ?_
  obtain ⟨-, high⟩ := Stream.callAt_bounds few (mem_range.mp first)
  obtain ⟨low, -⟩ := Stream.callAt_bounds few (mem_range.mp second)
  exact high.trans_le (((drawn_strictMono _).monotone (Nat.succ_le_of_lt smaller)).trans low)

/-- A stream that no other disturbs draws all numbers of its span. -/
theorem Stream.mem_numbers_of_undisturbed (undisturbed : stream.Undisturbed)
    (few : stream.finish ≤ 2 ^ 64) {number : Nat} (low : stream.start ≤ number)
    (high : number < stream.finish) : number ∈ stream.numbers := by
  have drawn : ∀ call, stream.environment.counter.drawn call = stream.start + call := by
    intro call
    induction call with
    | zero => rfl
    | succ call ih =>
      obtain ⟨none, nor⟩ := undisturbed call
      rw [CallCounter.drawn, ih, none, nor]
      rfl
  rw [Stream.finish, drawn] at high few
  refine mem_map.mpr ⟨number - stream.start, mem_range.mpr (by omega), ?_⟩
  obtain ⟨none, nor⟩ := undisturbed (number - stream.start)
  rw [CallCounter.callAt, drawn, none, nor, Nat.mod_eq_of_lt (by omega)]
  omega

/-! ## Streams of a process -/

/-- The counter of a process only grows. -/
theorem runFrom_grows (drawn : Nat) (process : List Stream) :
    (∀ stream ∈ runFrom drawn process, drawn ≤ stream.start) ∧
      (runFrom drawn process).Pairwise fun earlier later => earlier.finish ≤ later.start := by
  induction process generalizing drawn with
  | nil => exact ⟨nofun, Pairwise.nil⟩
  | cons stream process ih =>
    obtain ⟨later, grows⟩ := ih (stream.after drawn).finish
    have first : drawn ≤ (stream.after drawn).start := Nat.le_add_right _ _
    refine ⟨forall_mem_cons.mpr ⟨first, fun other mem => ?_⟩, pairwise_cons.mpr ⟨later, grows⟩⟩
    exact (first.trans (stream.after drawn).start_le_finish).trans (later other mem)

theorem runFrom_undisturbed {process : List Stream} (drawn : Nat)
    (undisturbed : ∀ stream ∈ process, stream.Undisturbed) :
    ∀ stream ∈ runFrom drawn process, stream.Undisturbed := by
  induction process generalizing drawn with
  | nil => exact nofun
  | cons stream process ih =>
    obtain ⟨first, later⟩ := forall_mem_cons.mp undisturbed
    exact forall_mem_cons.mpr ⟨first, ih _ later⟩

/-- Where nothing else draws, the first call of a process has number zero. -/
theorem exists_start_zero {process : List Stream} (alone : ∀ stream ∈ process, stream.start = 0)
    (calls : Calls process) : ∃ stream ∈ runFrom 0 process, stream.calls ≠ [] ∧
      stream.start = 0 := by
  obtain ⟨caller, mem, made⟩ := calls
  induction process with
  | nil => cases mem
  | cons stream process ih =>
    obtain ⟨first, later⟩ := forall_mem_cons.mp alone
    have zero : (stream.after 0).start = 0 := by
      rw [Stream.start, Stream.after]
      exact (Nat.zero_add _).trans first
    by_cases silent : (stream.after 0).calls = []
    · have still : (stream.after 0).finish = 0 := by
        rw [Stream.finish, silent]
        exact zero
      rw [runFrom, still] at mem ⊢
      rcases mem_cons.mp mem with rfl | mem
      · exact absurd silent made
      · obtain ⟨found, listed, rest⟩ := ih later mem
        exact ⟨found, mem_cons_of_mem _ listed, rest⟩
    · exact ⟨_, mem_cons_self, silent, zero⟩

/-! ## Numbers of a conversation -/

def numbersOf (process : List Stream) : List Nat := (runFrom 0 process).flatMap Stream.numbers

variable {conversation : Conversation}

theorem Conversation.callIds_eq (conversation : Conversation) : conversation.callIds =
    (conversation.processes.flatMap numbersOf).map geminiCallId := by
  rw [Conversation.callIds, conversation.recorded]
  simp only [map_flatMap, Stream.fst_calls, numbersOf]

/-- Ids are distinct when no number is drawn in two processes. -/
theorem Conversation.callIds_nodup_iff (few : conversation.FewDraws) :
    conversation.callIds.Nodup ↔ conversation.processes.Pairwise fun earlier later =>
      (numbersOf earlier).Disjoint (numbersOf later) := by
  rw [conversation.callIds_eq, nodup_map_iff geminiCallId_injective, nodup_flatMap]
  refine and_iff_right fun process listed => ?_
  have increase : (numbersOf process).Pairwise (· < ·) := by
    rw [numbersOf, pairwise_flatMap]
    refine ⟨fun stream mem => Stream.numbers_increase (few process listed stream mem), ?_⟩
    refine (runFrom_grows 0 process).2.imp_of_mem fun first second grows => ?_
    intro number drawn other drawnLater
    exact ((Stream.mem_numbers_bounds (few process listed _ first) drawn).2.trans_le grows).trans_le
      (Stream.mem_numbers_bounds (few process listed _ second) drawnLater).1
  exact increase.imp Nat.ne_of_lt

theorem Conversation.callIds_nodup_of_apart (few : conversation.FewDraws)
    (apart : conversation.SpansApart) : conversation.callIds.Nodup := by
  refine (Conversation.callIds_nodup_iff few).mpr (Pairwise.imp_of_mem ?_ apart)
  intro earlier later here there apart number drawn again
  obtain ⟨first, firstMem, drawn⟩ := mem_flatMap.mp drawn
  obtain ⟨second, secondMem, again⟩ := mem_flatMap.mp again
  have low := Stream.mem_numbers_bounds (few _ here _ firstMem) drawn
  have high := Stream.mem_numbers_bounds (few _ there _ secondMem) again
  rcases apart first firstMem second secondMem with silent | silent | before | behind
  · simp [Stream.numbers, silent] at drawn
  · simp [Stream.numbers, silent] at again
  · omega
  · omega

theorem Stream.start_lt_finish (made : stream.calls ≠ []) : stream.start < stream.finish :=
  drawn_strictMono _ (length_pos_iff.mpr made)

theorem Conversation.apart_of_callIds_nodup (few : conversation.FewDraws)
    (undisturbed : conversation.Undisturbed) (distinct : conversation.callIds.Nodup) :
    conversation.SpansApart := by
  refine ((Conversation.callIds_nodup_iff few).mp distinct).imp_of_mem ?_
  intro earlier later here there disjoint first firstMem second secondMem
  by_contra overlap
  simp only [Apart, not_or, not_le] at overlap
  obtain ⟨made, madeLater, endsLater, startsEarlier⟩ := overlap
  have inFirst := Stream.start_lt_finish made
  have inSecond := Stream.start_lt_finish madeLater
  -- both draw the number at which the later of them starts
  refine @disjoint (max first.start second.start) (mem_flatMap.mpr ⟨first, firstMem, ?_⟩)
    (mem_flatMap.mpr ⟨second, secondMem, ?_⟩)
  · exact Stream.mem_numbers_of_undisturbed (runFrom_undisturbed 0 (undisturbed _ here) _ firstMem)
      (few _ here _ firstMem) (by omega) (by omega)
  · exact Stream.mem_numbers_of_undisturbed
      (runFrom_undisturbed 0 (undisturbed _ there) _ secondMem)
      (few _ there _ secondMem) (by omega) (by omega)

/-- Processes that serve this conversation alone are apart if only one of them makes a call. -/
theorem Conversation.spansApart_iff_of_alone (alone : conversation.Alone) :
    conversation.SpansApart ↔
      conversation.processes.Pairwise fun earlier later => ¬ (Calls earlier ∧ Calls later) := by
  constructor
  · refine Pairwise.imp_of_mem fun {earlier later} here there apart ⟨calls, callsLater⟩ => ?_
    obtain ⟨first, firstMem, made, zero⟩ := exists_start_zero (alone.2 _ here) calls
    obtain ⟨second, secondMem, madeLater, zeroLater⟩ :=
      exists_start_zero (alone.2 _ there) callsLater
    have inFirst := Stream.start_lt_finish made
    have inSecond := Stream.start_lt_finish madeLater
    rcases apart first firstMem second secondMem with silent | silent | before | behind
    · exact made silent
    · exact madeLater silent
    · omega
    · omega
  · refine Pairwise.imp fun {earlier later} only first firstMem second secondMem => ?_
    by_cases silent : first.calls = []
    · exact .inl silent
    · refine .inr (.inl ?_)
      by_contra made
      exact only ⟨⟨first, firstMem, silent⟩, second, secondMem, made⟩

/-! ## Names -/

/-- A pair of a list without repeated keys is what its key is mapped to. -/
theorem lookup_of_mem {entries : List (String × String)}
    {key value : String} (distinct : (entries.map Prod.fst).Nodup)
    (listed : (key, value) ∈ entries) : entries.lookup key = some value := by
  induction entries with
  | nil => cases listed
  | cons entry rest ih =>
    obtain ⟨name, other⟩ := entry
    rw [map_cons, nodup_cons] at distinct
    rcases mem_cons.mp listed with here | later
    · cases here
      exact lookup_cons_self
    · have apart : (key == name) = false := by
        rw [beq_eq_false_iff_ne]
        rintro rfl
        exact distinct.1 (mem_map.mpr ⟨_, later, rfl⟩)
      rw [lookup_cons, apart]
      exact ih distinct.2 later

variable {history : List ResponseItem}

/-- With distinct ids an output is reported under the name of its call. -/
theorem responseName_of_mem {callId name : String}
    (distinct : ((callsIn history).map Prod.fst).Nodup)
    (listed : (callId, name) ∈ callsIn history) :
    responseName (callIdToName history) callId = name := by
  have reversed : ((callIdToName history).map Prod.fst).Nodup := by
    rw [callIdToName, map_reverse]
    exact nodup_reverse.mpr distinct
  rw [responseName, lookup_of_mem reversed (mem_reverse.mpr listed)]
  rfl

theorem responsePart_mem_contributions
    (names : List (String × String)) (covered : Bool) {items : List ResponseItem} {callId : String}
    {output : FunctionCallOutputPayload} (listed : .functionCallOutput callId output ∈ items) :
    responsePart names callId output ∈
      (contributions codec names covered items).flatMap Turn.parts := by
  induction items generalizing covered with
  | nil => cases listed
  | cons item rest ih =>
    rw [contributions, flatMap_append, mem_append]
    rcases mem_cons.mp listed with here | later
    · left
      subst here
      simp [isCall, itemTurn]
    · exact Or.inr (ih _ later)

theorem namesOutputs_of_nodup
    (distinct : ((callsIn history).map Prod.fst).Nodup) : NamesOutputs codec history := by
  intro callId output listed name called
  obtain ⟨sent, sentListed, signed⟩ := exists_sent_of_mem (onlySigned_contents codec history)
      (responsePart_mem_contributions codec (callIdToName history) false listed)
  obtain ⟨turn, turnListed, partListed⟩ := mem_flatMap.mp sentListed
  refine ⟨turn, turnListed, sent, partListed, ?_⟩
  rw [signed.get_eq (by decide)]
  have named := responseName_of_mem distinct called
  rw [responsePart, named]
  rfl

/--
Call ids are distinct, and every output is sent under the name of its call, if
the streams of different processes draw apart.  Where no other stream draws
meanwhile they are distinct only then; in processes without other streams, that
is only if a single process makes calls.
-/
theorem call_ids_unique_iff (codec : JsonCodec) {conversation : Conversation}
    (few : conversation.FewDraws) :
    let unique := conversation.callIds.Nodup ∧ NamesOutputs codec conversation.history
    (conversation.SpansApart → unique) ∧
      (conversation.Undisturbed → (unique ↔ conversation.SpansApart)) ∧
      (conversation.Alone → (unique ↔ conversation.processes.Pairwise fun earlier later =>
        ¬ (Calls earlier ∧ Calls later))) := by
  intro unique
  have whole : conversation.SpansApart → unique := fun apart =>
    have distinct := Conversation.callIds_nodup_of_apart few apart
    ⟨distinct, namesOutputs_of_nodup codec distinct⟩
  have exactly : conversation.Undisturbed → (unique ↔ conversation.SpansApart) :=
    fun undisturbed =>
      ⟨fun ⟨distinct, _⟩ => Conversation.apart_of_callIds_nodup few undisturbed distinct, whole⟩
  exact ⟨whole, exactly, fun alone =>
    (exactly alone.1).trans (Conversation.spansApart_iff_of_alone alone)⟩

/-! ## A restart -/

/-- A stream that calls one function, after draws of other streams. -/
def oneCall (drawn : Nat) : Stream where
  environment := { plainGemini with counter := .alone drawn }
  source := [.chunk ⟨[⟨some [⟨.functionCall ⟨name, none⟩, false, none⟩],
        some .stop, none, none⟩], none, none⟩]

/-- Two calls by two processes; other streams draw in the second one first. -/
def busyConversation : Conversation where
  processes := [[oneCall "ls" 0], [oneCall "cat" 5]]
  history := [.functionCall none "ls" none "\x7b\x7d" "gemini_call_0",
      .functionCallOutput "gemini_call_0" ⟨.text "a", none⟩,
      .functionCall none "cat" none "\x7b\x7d" "gemini_call_5",
      .functionCallOutput "gemini_call_5" ⟨.text "b", none⟩]
  recorded := by decide +kernel

theorem busy_conversation_unique : busyConversation.callIds.Nodup ∧
    NamesOutputs constantCodec busyConversation.history := by
  have few : ∀ process ∈ busyConversation.processes, ∀ stream ∈ runFrom 0 process,
      stream.finish ≤ 2 ^ 64 := by
    decide +kernel
  refine (call_ids_unique_iff constantCodec few).1 ?_
  have apart : ∀ first ∈ runFrom 0 [oneCall "ls" 0], ∀ second ∈ runFrom 0 [oneCall "cat" 5],
      first.finish ≤ second.start := by
    decide +kernel
  exact pairwise_pair.mpr fun first mem second listed =>
    .inr (.inr (.inl (apart first mem second listed)))

def restartedConversation : Conversation where
  processes := [[oneCall "ls" 0], [oneCall "cat" 0]]
  history := [.functionCall none "ls" none "\x7b\x7d" "gemini_call_0",
      .functionCallOutput "gemini_call_0" ⟨.text "a", none⟩,
      .functionCall none "cat" none "\x7b\x7d" "gemini_call_0",
      .functionCallOutput "gemini_call_0" ⟨.text "b", none⟩]
  recorded := by decide +kernel

/-- The second process draws zero again, and both outputs are those of `cat`. -/
theorem restart_repeats_call_id : ¬ restartedConversation.callIds.Nodup ∧
      (conversationToGeminiContents constantCodec
          restartedConversation.history).flatMap Turn.parts =
        [callPart constantCodec "ls" "\x7b\x7d", .object [("functionResponse",
            functionResponse "cat" ⟨.text "a", none⟩)],
          callPart constantCodec "cat" "\x7b\x7d",
          .object [("functionResponse", functionResponse "cat" ⟨.text "b", none⟩)]] := by
  refine ⟨by decide +kernel, ?_⟩
  rw [conversationToGeminiContents_eq]
  decide +kernel

end Codex.Gemini.CallIds
