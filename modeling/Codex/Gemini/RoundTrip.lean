import Codex.Gemini.RecordedParts
import Codex.Gemini.WellFormedContents
import Codex.Library.EscapeRemoval
import Codex.Library.MarkedCuts

/-!
# A Gemini response through the history

The decoder keeps text aside until the stream ends, so that a recorded response
has its calls first and its text last.  Sent back, it is one model turn with
the parts of the response in their order only under a condition on the parts,
which this module states and proves to be exact: text comes last, nothing but
a call is signed, and an unsigned call has a name that is not split.
-/

namespace Codex.Gemini.RoundTrip

open Contents RecordedParts WellFormedContents Library.KeyedRuns List
  Protocol.JsonValue Protocol.Models Sse.GenerateContent
open Sse.Messages (ResponseEvent Output doneItemOf doneItems doneItems_append doneItems_map_ok)
open Tools.FlatNames
open Library.MarkedCuts (eq_filter_append_filter)

variable (part : Part)

/-! ## What the response asks to be sent back -/

def isTextOrCall : Bool :=
  match part.payload with
  | .text _ => true
  | .functionCall _ => true
  | _ => false

def isSpoken : Bool := !part.thought &&
    match part.payload with
    | .text _ => true
    | _ => false

/-- The text that a part adds to the message. -/
def spokenText : String := if isSpoken part then part.thinkingText else ""

variable (parts : List Part)

def messageText : String := String.join (parts.map spokenText)

def callValue (name : String) (args : Value) (signature : Option String) : Value :=
  .object (("functionCall", .object [("name", .string name), ("args", args)]) ::
      (signature.map fun signature => ("thoughtSignature", Value.string signature)).toList)

/--
The arguments of a call.  Where a call has none, an empty object and null both
say so; the two ways of recording a call differ in this.
-/
def sentArgs (call : GeminiFunctionCall) (signature : Option String) : Value :=
  call.args.getD (if signature.isSome then .null else .emptyObject)

/--
A part as it was received: a thought is flagged, and left out when it is not
signed.
-/
def receivedPart : List Value :=
  match part.payload with
  | .functionCall call =>
    [callValue call.name (sentArgs call part.thoughtSignature) part.thoughtSignature]
  | .text text =>
    match part.thought, part.thoughtSignature with
    | false, none => [textPart text]
    | false, some signature =>
      [.object [("text", .string text), ("thoughtSignature", .string signature)]]
    | true, none => []
    | true, some signature =>
      [.object [("text", .string text), ("thought", .bool true),
        ("thoughtSignature", .string signature)]]
  | _ => []

/-- Parts with adjacent plain text parts joined, some or all of them. -/
inductive Joins : List Value → List Value → Prop where
  | nil : Joins [] []
  | keep {part : Value} {parts sent : List Value} :
      Joins parts sent → Joins (part :: parts) (part :: sent)
  | join {first second : String} {parts sent : List Value} :
      Joins (textPart (first ++ second) :: parts) sent →
        Joins (textPart first :: textPart second :: parts) sent

/-- One model turn with the received parts. -/
def SentBack (contents : List Turn) : Prop :=
  ∃ sent, contents = [⟨.model, sent⟩] ∧ Joins (parts.flatMap receivedPart) sent

/-! ## The condition -/

/-- A part that is recorded as it was received. -/
def Survives : Prop :=
  match part.payload with
  | .functionCall call =>
    part.thought = false ∧ (part.thoughtSignature = none →
        (parseFlatMcpToolName call.name).nameSpace = none)
  | _ => part.thoughtSignature = none

/-- The parts that are recorded in the order in which they were received. -/
structure SurvivesInOrder (parts : List Part) : Prop where
  each : ∀ part ∈ parts, Survives part
  textLast : parts.Pairwise fun earlier later => isSpoken earlier = true → call? later = none
  notBlank : (∃ part ∈ parts, isSpoken part = true) → messageText parts ≠ ""
  something : ∃ part ∈ parts, part.thought = false

/-! ## Joining -/

def isPlainText : Value → Bool
  | .object [(key, .string _)] => key == "text"
  | _ => false

namespace Joins

theorem refl (parts : List Value) : Joins parts parts := by
  induction parts with
  | nil => exact .nil
  | cons part rest ih => exact .keep ih

theorem keepAll (front : List Value) {parts sent : List Value}
    (joins : Joins parts sent) : Joins (front ++ parts) (front ++ sent) := by
  induction front with
  | nil => exact joins
  | cons part rest ih => exact .keep ih

theorem all (first : String) (texts : List String) : Joins ((first :: texts).map textPart)
      [textPart (String.join (first :: texts))] := by
  induction texts generalizing first with
  | nil =>
    have whole : String.join [first] = first := by simp
    rw [whole]
    exact refl _
  | cons second rest ih =>
    have whole : String.join (first :: second :: rest) =
        String.join ((first ++ second) :: rest) := by
      simp [String.append_assoc]
    rw [whole]
    exact .join (ih (first ++ second))

theorem others_eq {parts sent : List Value} (joins : Joins parts sent) :
    parts.filter (fun part => !isPlainText part) = sent.filter fun part => !isPlainText part := by
  induction joins with
  | nil => rfl
  | keep _ ih => simp only [filter_cons, ih]
  | join _ ih => exact ih

theorem any_isPlainText {parts sent : List Value} (joins : Joins parts sent) :
    parts.any isPlainText = sent.any isPlainText := by
  induction joins with
  | nil => rfl
  | keep _ ih => simp only [any_cons, ih]
  | join _ ih => exact ih

theorem textLast {parts sent : List Value} (joins : Joins parts sent)
    (last : sent.Pairwise fun earlier later =>
      isPlainText earlier = true → isPlainText later = true) :
    parts.Pairwise fun earlier later => isPlainText earlier = true → isPlainText later = true := by
  induction joins with
  | nil => exact .nil
  | @keep part parts sent rest ih =>
    rw [pairwise_cons] at last ⊢
    refine ⟨fun later listed plain => ?_, ih last.2⟩
    by_contra other
    have kept : later ∈ sent.filter fun part => !isPlainText part := by
      rw [← rest.others_eq]
      exact mem_filter.mpr ⟨listed, by simpa using other⟩
    exact other (last.1 later (mem_filter.mp kept).1 plain)
  | join _ ih =>
    have joined := pairwise_cons.mp (ih last)
    refine pairwise_cons.mpr ⟨?_, pairwise_cons.mpr ⟨?_, ?_⟩⟩
    · intro later listed _
      rcases mem_cons.mp listed with rfl | listed
      · rfl
      · exact joined.1 later listed rfl
    · intro later listed _
      exact joined.1 later listed rfl
    · exact joined.2

end Joins

/-! ## What is sent back -/

/-- The parts that a recorded part is sent back as. -/
def replayed (codec : JsonCodec) (part : Part) : List Value :=
  match call? part with
  | some call =>
    match part.thoughtSignature with
    | some signature => [callValue call.name (call.args.getD .null) (some signature)]
    | none =>
      [callPart codec (recordedName call) (match call.args with
        | some args => codec.toText args
        | none => "\x7b\x7d")]
  | none =>
    if part.thought then (part.thoughtSignature.map (thoughtBlock part.thinkingText)).toList
    else []

def textParts (text : String) : List Value := if text.isEmpty then [] else [textPart text]

def single (part : Value) : Turn := ⟨.model, [part]⟩

section Sent

variable (env : GeminiEnvironment) (names : List (String × String))

theorem contributions_partItems (number : Nat) (part : Part) (items : List ResponseItem) :
    contributions env.codec names false (partItems env number part ++ items) =
      (replayed env.codec part).map single ++ contributions env.codec names false items := by
  unfold partItems replayed
  cases call? part with
  | some call => cases part.thoughtSignature <;> rfl
  | none =>
    simp only
    split
    · cases part.thoughtSignature <;> rfl
    · rfl

theorem contributions_partsItems (number : Nat) (parts : List Part) (items : List ResponseItem) :
    contributions env.codec names false (partsItems env number parts ++ items) =
      (parts.flatMap (replayed env.codec)).map single ++
        contributions env.codec names false items := by
  induction parts generalizing number with
  | nil => rfl
  | cons part parts ih =>
    rw [partsItems, append_assoc, contributions_partItems, ih,
      flatMap_cons, map_append, append_assoc]

theorem contributions_textItems (text : String) :
    contributions env.codec names false (textItems text) = (textParts text).map single := by
  unfold textItems textParts
  split <;> rfl

theorem runs_single (first : Value) (parts : List Value) :
    runs Turn.role join ((first :: parts).map single) = [⟨.model, first :: parts⟩] := by
  induction parts generalizing first with
  | nil => rfl
  | cons second rest ih =>
    rw [map_cons, runs_cons, ih]
    rfl

/-- What a recorded response is sent back as. -/
def replayedParts (parts : List Part) : List Value := parts.flatMap (replayed env.codec) ++
    textParts (messageText parts)

theorem contents_of_items (parts : List Part) (number : Nat) :
    conversationToGeminiContents env.codec (partsItems env number parts ++
          textItems (messageText parts)) =
      if replayedParts env parts = [] then []
      else [⟨.model, replayedParts env parts⟩] := by
  rw [conversationToGeminiContents_eq, contributions_partsItems,
    contributions_textItems, ← map_append]
  change ensureActiveLoopHasThoughtSignatures (runs Turn.role join
    ((replayedParts env parts).map single)) = _
  cases replayedParts env parts with
  | nil => rfl
  | cons first rest =>
    rw [runs_single, if_neg (cons_ne_nil _ _)]
    rfl

end Sent

variable (env : GeminiEnvironment)

/-! ## The text of the message -/

theorem accumulatedText_onPart {state : PartState} {part : Part}
    (fits : (state.accumulatedText ++ spokenText part).utf8ByteSize ≤ maxAccumulatedBytes) :
    (onPart env state part).1.accumulatedText = state.accumulatedText ++ spokenText part := by
  unfold onPart
  cases flagged : part.thought with
  | true => simp [onThought, spokenText, isSpoken, flagged]
  | false =>
    cases payload : part.payload with
    | text text =>
      have spoken : spokenText part = text := by
        simp [spokenText, isSpoken, flagged, payload, Part.thinkingText]
      rw [spoken] at fits ⊢
      simp only [Bool.false_eq_true, if_false]
      split
      next blank =>
        have empty : text = "" := by simpa using blank
        simp [empty]
      · rw [String.utf8ByteSize_append] at fits
        simp only [onText, if_pos fits]
    | functionCall call => simp [onFunctionCall, spokenText, isSpoken, flagged, payload]
    | _ => simp [spokenText, isSpoken, flagged, payload]

theorem messageText_cons : messageText (part :: parts) = spokenText part ++ messageText parts := by
  simp [messageText]

theorem accumulatedText_onParts (state : PartState) {parts : List Part}
    (fits : (state.accumulatedText ++ messageText parts).utf8ByteSize ≤ maxAccumulatedBytes) :
    (onParts env state parts).1.accumulatedText = state.accumulatedText ++ messageText parts := by
  induction parts generalizing state with
  | nil => simp [onParts, messageText]
  | cons part parts ih =>
    rw [messageText_cons, ← String.append_assoc] at fits ⊢
    have here : (state.accumulatedText ++ spokenText part).utf8ByteSize ≤ maxAccumulatedBytes := by
      rw [String.utf8ByteSize_append] at fits
      exact (Nat.le_add_right _ _).trans fits
    have step := accumulatedText_onPart env here
    simp only [onParts]
    rw [ih _ (by rw [step]; exact fits), step]

/-! ## Part by part -/

/--
What `serde_json` guarantees for the arguments of the calls: the text that is
written for them reads back.
-/
def ReadsBack (codec : JsonCodec) (parts : List Part) : Prop :=
  codec.fromStr "\x7b\x7d" = some .emptyObject ∧
    ∀ part ∈ parts, ∀ call, part.payload = .functionCall call → ∀ args, call.args = some args →
        codec.fromStr (codec.toText args) = some args

/-- The received parts besides plain text. -/
def others : List Value := (receivedPart part).filter fun part => !isPlainText part

section Parts

variable {codec : JsonCodec} {parts : List Part} {part : Part}

theorem replayed_unsigned_call {call : GeminiFunctionCall}
    (reads : ReadsBack codec parts) (listed : part ∈ parts)
    (payload : part.payload = .functionCall call) (spoken : part.thought = false)
    (unsigned : part.thoughtSignature = none) :
    replayed codec part = [callValue (recordedName call) (sentArgs call none) none] := by
  have called : call? part = some call := by simp [call?, spoken, payload]
  simp only [replayed, called, unsigned]
  cases given : call.args with
  | none =>
    simp only [callPart, reads.1, callValue, sentArgs, given]
    rfl
  | some args =>
    simp only [callPart, reads.2 part listed call payload args given, callValue, sentArgs, given]
    rfl

theorem others_eq_replayed_iff (reads : ReadsBack codec parts)
    (listed : part ∈ parts) (known : isTextOrCall part = true) :
    (others part = replayed codec part ↔ Survives part) ∧
      (replayed codec part).length ≤ (others part).length := by
  cases payload : part.payload with
  | text text =>
    have silent : call? part = none := by simp [call?, payload]
    cases flagged : part.thought <;>
      cases signature : part.thoughtSignature <;>
      simp [others, receivedPart, replayed, Survives, payload, silent,
        flagged, signature, isPlainText, textPart, thoughtBlock]
  | functionCall call =>
    cases flagged : part.thought with
    | true =>
      have silent : call? part = none := by simp [call?, flagged]
      cases signature : part.thoughtSignature <;>
        simp [others, receivedPart, replayed, Survives, payload,
          silent, flagged, signature, isPlainText, callValue,
          thoughtBlock]
    | false =>
      cases signature : part.thoughtSignature with
      | none =>
        rw [replayed_unsigned_call reads listed payload flagged signature]
        simp only [others, receivedPart, Survives, payload, flagged,
          signature, isPlainText, callValue]
        simpa using eq_comm.trans (recordedName_eq_iff call)
      | some text =>
        have called : call? part = some call := by simp [call?, flagged, payload]
        simp [others, receivedPart, replayed, Survives, payload,
          flagged, signature, called, isPlainText, callValue,
          sentArgs]
  | _ => simp [isTextOrCall, payload] at known

theorem replayed_of_thought (codec : JsonCodec) (survives : Survives part)
    (flagged : part.thought = true) : replayed codec part = [] := by
  have silent : call? part = none := by simp [call?, flagged]
  have unsigned : part.thoughtSignature = none := by
    unfold Survives at survives
    split at survives
    · rw [flagged] at survives
      cases survives.1
    · exact survives
  simp [replayed, silent, flagged, unsigned]

theorem isPlainText_replayed {codec : JsonCodec} {part : Part} :
    ∀ value ∈ replayed codec part, isPlainText value = false := by
  unfold replayed
  cases call? part with
  | some call =>
    cases part.thoughtSignature with
    | some signature => simp [isPlainText, callValue]
    | none => simp [isPlainText, callPart]
  | none =>
    simp only
    split
    · cases part.thoughtSignature <;> simp [isPlainText, thoughtBlock]
    · exact forall_mem_nil _

theorem plain_receivedPart (survives : Survives part) (known : isTextOrCall part = true) :
    (receivedPart part).filter isPlainText =
      if isSpoken part then [textPart part.thinkingText] else [] := by
  cases payload : part.payload with
  | text text =>
    have unsigned : part.thoughtSignature = none := by simpa [Survives, payload] using survives
    cases flagged : part.thought <;>
      simp [receivedPart, isSpoken, payload, flagged, unsigned,
        isPlainText, textPart, Part.thinkingText]
  | functionCall call => simp [receivedPart, isSpoken, payload, isPlainText, callValue]
  | _ => simp [isTextOrCall, payload] at known

end Parts

/-! ## All parts -/

theorem messageText_eq : messageText parts =
      String.join ((parts.filter isSpoken).map Part.thinkingText) := by
  induction parts with
  | nil => rfl
  | cons part parts ih =>
    rw [messageText_cons, ih, spokenText]
    cases spoken : isSpoken part <;> simp [spoken]

section Whole

variable (env : GeminiEnvironment) {parts : List Part}

theorem filter_others (parts : List Part) :
    (parts.flatMap receivedPart).filter (fun part => !isPlainText part) = parts.flatMap others := by
  rw [filter_flatMap]
  rfl

theorem isPlainText_textParts {text : String} :
    ∀ value ∈ textParts text, isPlainText value = true := by
  unfold textParts
  split
  · exact forall_mem_nil _
  · intro value listed
    cases mem_singleton.mp listed
    rfl

theorem isPlainText_flatMap_replayed {codec : JsonCodec} {parts : List Part} :
    ∀ value ∈ parts.flatMap (replayed codec), isPlainText value = false := by
  intro value listed
  obtain ⟨part, _, inner⟩ := mem_flatMap.mp listed
  exact isPlainText_replayed value inner

theorem replayedParts_textLast (parts : List Part) :
    (replayedParts env parts).Pairwise fun earlier later =>
      isPlainText earlier = true → isPlainText later = true := by
  refine pairwise_append.mpr ⟨?_, ?_, ?_⟩
  · refine pairwise_of_forall_mem_list ?_
    intro earlier listed later _ plain
    rw [isPlainText_flatMap_replayed earlier listed] at plain
    cases plain
  · refine pairwise_of_forall_mem_list ?_
    intro earlier _ later listed _
    exact isPlainText_textParts later listed
  · intro earlier _ later listed _
    exact isPlainText_textParts later listed

/-- A joined list that is sent back has the condition. -/
theorem survivesInOrder_of_joins (reads : ReadsBack env.codec parts)
    (known : ∀ part ∈ parts, isTextOrCall part = true)
    (joins : Joins (parts.flatMap receivedPart) (replayedParts env parts))
    (full : replayedParts env parts ≠ []) : SurvivesInOrder parts := by
  have cut : (replayedParts env parts).filter (fun part => !isPlainText part) =
        parts.flatMap (replayed env.codec) := by
    rw [replayedParts, filter_append, filter_eq_self.mpr (by
        simpa using isPlainText_flatMap_replayed),
      filter_eq_nil_iff.mpr (by simpa using isPlainText_textParts),
      append_nil]
  have same := joins.others_eq
  rw [filter_others, cut] at same
  have each : ∀ part ∈ parts, Survives part := fun part listed =>
    (others_eq_replayed_iff reads listed (known part listed)).1.mp
      ((Library.EscapeRemoval.flatMap_eq_flatMap_iff fun part listed =>
        (others_eq_replayed_iff reads listed (known part listed)).2).mp same part listed)
  have spokenPlain : ∀ part ∈ parts, isSpoken part = true →
      textPart part.thinkingText ∈ receivedPart part := by
    intro part listed spoken
    have plain := plain_receivedPart (each part listed) (known part listed)
    rw [if_pos spoken] at plain
    exact (mem_filter.mp (plain ▸ mem_singleton_self _)).1
  have notBlank : (∃ part ∈ parts, isSpoken part = true) → messageText parts ≠ "" := by
    rintro ⟨part, listed, spoken⟩ blank
    have some : (parts.flatMap receivedPart).any isPlainText = true :=
      any_eq_true.mpr ⟨_, mem_flatMap.mpr ⟨part, listed, spokenPlain part listed spoken⟩, rfl⟩
    rw [joins.any_isPlainText, replayedParts, blank] at some
    obtain ⟨value, found, plain⟩ := any_eq_true.mp some
    have replayedHere : value ∈ parts.flatMap (replayed env.codec) := by
      simpa [textParts] using found
    rw [isPlainText_flatMap_replayed value replayedHere] at plain
    cases plain
  refine ⟨each, ?_, notBlank, ?_⟩
  · have last := joins.textLast (replayedParts_textLast env parts)
    refine (pairwise_flatMap.mp last).2.imp_of_mem ?_
    intro earlier later earlierListed laterListed ordered spoken
    by_contra called
    obtain ⟨call, calls⟩ := Option.ne_none_iff_exists'.mp called
    have payload := (call?_eq_some_iff.mp calls).2
    have received : callValue call.name
        (sentArgs call later.thoughtSignature) later.thoughtSignature ∈ receivedPart later := by
      simp [receivedPart, payload]
    have plain := ordered _ (spokenPlain earlier earlierListed spoken) _ received rfl
    simp [isPlainText, callValue] at plain
  · by_contra nothing
    have flagged : ∀ part ∈ parts, part.thought = true := by simpa using nothing
    have silent : parts.flatMap (replayed env.codec) = [] :=
      flatMap_eq_nil_iff.mpr fun part listed =>
        replayed_of_thought _ (each part listed) (flagged part listed)
    have unspoken : parts.filter isSpoken = [] := filter_eq_nil_iff.mpr fun part listed => by
        simp [isSpoken, flagged part listed]
    have blank : messageText parts = "" := by
      rw [messageText_eq, unspoken]
      rfl
    exact full (by rw [replayedParts, silent, blank]; rfl)

theorem flatMap_ite {α β : Type*} (chosen : α → Bool) (read : α → β) (elements : List α) :
    (elements.flatMap fun element =>
        if chosen element then [read element] else []) =
      (elements.filter chosen).map read := by
  induction elements with
  | nil => rfl
  | cons element rest ih =>
    rw [flatMap_cons, ih]
    cases mark : chosen element <;> simp [mark]

theorem pairwise_receivedPart : (receivedPart part).Pairwise fun earlier later =>
      isPlainText earlier = true → isPlainText later = true := by
  unfold receivedPart
  split
  · exact pairwise_singleton _ _
  · split
    · exact pairwise_singleton _ _
    · exact pairwise_singleton _ _
    · exact Pairwise.nil
    · exact pairwise_singleton _ _
  · exact Pairwise.nil

theorem isPlainText_of_silent {part : Part} (survives : Survives part)
    (known : isTextOrCall part = true) (silent : call? part = none)
    {value : Value} (received : value ∈ receivedPart part) : isPlainText value = true := by
  cases payload : part.payload with
  | text text =>
    have unsigned : part.thoughtSignature = none := by simpa [Survives, payload] using survives
    cases flagged : part.thought with
    | true => simp [receivedPart, payload, flagged, unsigned] at received
    | false =>
      simp only [receivedPart, payload, flagged, unsigned] at received
      cases mem_singleton.mp received
      rfl
  | functionCall call =>
    have unflagged : part.thought = false := by
      simp only [Survives, payload] at survives
      exact survives.1
    rw [call?_eq_some_iff.mpr ⟨unflagged, payload⟩] at silent
    cases silent
  | _ => simp [isTextOrCall, payload] at known

/-- With the condition the joined list is what is sent back. -/
theorem joins_of_survivesInOrder (reads : ReadsBack env.codec parts)
    (known : ∀ part ∈ parts, isTextOrCall part = true) (survives : SurvivesInOrder parts) :
    Joins (parts.flatMap receivedPart) (replayedParts env parts) ∧
      replayedParts env parts ≠ [] := by
  have replayedSame : parts.flatMap others = parts.flatMap (replayed env.codec) :=
    flatMap_congr fun part listed =>
      (others_eq_replayed_iff reads listed (known part listed)).1.mpr (survives.each part listed)
  have plainSame : (parts.flatMap receivedPart).filter isPlainText =
      ((parts.filter isSpoken).map Part.thinkingText).map textPart := by
    rw [filter_flatMap, map_map, ← flatMap_ite]
    exact flatMap_congr fun part listed =>
      plain_receivedPart (survives.each part listed) (known part listed)
  have last : (parts.flatMap receivedPart).Pairwise fun earlier later =>
      isPlainText earlier = true → isPlainText later = true := by
    refine pairwise_flatMap.mpr ⟨fun part _ => pairwise_receivedPart part, ?_⟩
    refine survives.textLast.imp_of_mem ?_
    intro earlier later earlierListed laterListed ordered value received next nextReceived plain
    have spoken : isSpoken earlier = true := by
      have listed := mem_filter.mpr ⟨received, plain⟩
      rw [plain_receivedPart (survives.each earlier earlierListed)
        (known earlier earlierListed)] at listed
      by_contra silent
      rw [if_neg silent] at listed
      cases listed
    exact isPlainText_of_silent (survives.each later laterListed)
      (known later laterListed) (ordered spoken) nextReceived
  have cut := eq_filter_append_filter last
  rw [filter_others, replayedSame, plainSame] at cut
  constructor
  · rw [cut]
    refine Joins.keepAll _ ?_
    have notBlank := survives.notBlank
    rw [messageText_eq] at notBlank ⊢
    cases texts : parts.filter isSpoken with
    | nil => exact .nil
    | cons part rest =>
      rw [texts] at notBlank
      have mem : part ∈ parts.filter isSpoken := by
        rw [texts]
        exact mem_cons_self
      have written := notBlank ⟨part, mem_filter.mp mem⟩
      rw [textParts, if_neg (by simpa using written)]
      exact Joins.all part.thinkingText (rest.map Part.thinkingText)
  · obtain ⟨part, listed, unflagged⟩ := survives.something
    intro empty
    obtain ⟨silent, textless⟩ := append_eq_nil_iff.mp empty
    have unreplayed := flatMap_eq_nil_iff.mp silent part listed
    cases payload : part.payload with
    | text text =>
      have spoken : isSpoken part = true := by simp [isSpoken, unflagged, payload]
      have written := survives.notBlank ⟨part, listed, spoken⟩
      rw [textParts, if_neg (by simpa using written)] at textless
      cases textless
    | functionCall call =>
      have called := call?_eq_some_iff.mpr ⟨unflagged, payload⟩
      simp only [replayed, called] at unreplayed
      cases signature : part.thoughtSignature <;>
        simp [signature] at unreplayed
    | _ =>
      have impossible := known part listed
      simp [isTextOrCall, payload] at impossible

end Whole

/-! ## The round trip -/

/--
A completed response of text and calls, within the cap and without grounding,
is sent back as one model turn with the received parts exactly when its parts
survive in order.
-/
theorem response_sent_back_iff (env : GeminiEnvironment) (source : List SourceItem)
    (completes : ∃ completion, isCompletion completion = true ∧
      .ok completion ∈ processGenerateContentSse env source)
    (known : ∀ part ∈ partsOf source, isTextOrCall part = true)
    (fits : (messageText (partsOf source)).utf8ByteSize ≤ maxAccumulatedBytes)
    (plain : Ungrounded source)
    (reads : ReadsBack env.codec (partsOf source)) :
    SentBack (partsOf source) (conversationToGeminiContents env.codec (recorded env source)) ↔
      SurvivesInOrder (partsOf source) := by
  obtain ⟨completion, isLast, sent⟩ := completes
  have text : (onParts env StreamState.initial.toPartState
      (partsOf source)).1.accumulatedText = messageText (partsOf source) :=
    (accumulatedText_onParts env PartState.initial
      (by simpa [PartState.initial] using fits)).trans String.empty_append
  have items : recorded env source = partsItems env 0 (partsOf source) ++
        textItems (messageText (partsOf source)) := by
    have done := doneItems_of_completion isLast sent rfl plain
    rw [recorded, processGenerateContentSse, done, text]
    rfl
  rw [items, contents_of_items]
  constructor
  · rintro ⟨shown, single, joins⟩
    by_cases empty : replayedParts env (partsOf source) = []
    · rw [if_pos empty] at single
      cases single
    · rw [if_neg empty, List.cons.injEq, Turn.mk.injEq] at single
      rw [← single.1.2] at joins
      exact survivesInOrder_of_joins env reads known joins empty
  · intro survives
    obtain ⟨joins, full⟩ := joins_of_survivesInOrder env reads known survives
    exact ⟨_, if_neg full, joins⟩

def oneChunk : List SourceItem := [.chunk ⟨[⟨some parts, some .stop, none, none⟩], none, none⟩]

def lsCall : Part := ⟨.functionCall ⟨"ls", none⟩, false, none⟩

def spokenPart (text : String) : Part := ⟨.text text, false, none⟩

theorem call_then_text_sent_back : SentBack [lsCall, spokenPart "done"]
      (conversationToGeminiContents plainGemini.codec (recorded plainGemini
          (oneChunk [lsCall, spokenPart "done"]))) := by
  refine (response_sent_back_iff plainGemini
    (oneChunk [lsCall, spokenPart "done"]) ?_ ?_ ?_ ?_ ?_).mpr ?_
  · exact ⟨_, rfl, mem_of_getLast? rfl⟩
  · decide
  · decide +kernel
  · intro chunk listed cand first
    cases mem_singleton.mp listed
    cases first
    rfl
  · refine ⟨rfl, ?_⟩
    intro part listed call payload args given
    rcases mem_pair.mp listed with rfl | rfl
    · cases payload
      cases given
    · cases payload
  · refine ⟨?_, ?_, ?_, ?_⟩
    · intro part listed
      rcases mem_pair.mp listed with rfl | rfl
      · exact ⟨rfl, fun _ => by decide +kernel⟩
      · rfl
    · decide +kernel
    · decide +kernel
    · exact ⟨lsCall, mem_cons_self, rfl⟩

/-- A text before a call comes back after it. -/
theorem text_then_call_not_sent_back : conversationToGeminiContents plainGemini.codec
        (recorded plainGemini (oneChunk [spokenPart "hi", lsCall])) =
      [⟨.model, [callValue "ls" .emptyObject none, textPart "hi"]⟩] ∧
      ¬ SentBack [spokenPart "hi", lsCall] (conversationToGeminiContents plainGemini.codec
          (recorded plainGemini (oneChunk [spokenPart "hi", lsCall]))) := by
  have evaluated : conversationToGeminiContents plainGemini.codec
      (recorded plainGemini (oneChunk [spokenPart "hi", lsCall])) =
        [⟨.model, [callValue "ls" .emptyObject none, textPart "hi"]⟩] := by
    rw [conversationToGeminiContents_eq]
    decide +kernel
  refine ⟨evaluated, ?_⟩
  rintro ⟨sent, shape, joins⟩
  rw [evaluated] at shape
  cases shape
  have last := joins.textLast (by decide +kernel)
  revert last
  decide +kernel

end Codex.Gemini.RoundTrip
