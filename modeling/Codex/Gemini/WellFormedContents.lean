import Codex.Gemini.Contents

/-!
# The shape of a Gemini request

Whatever the history, the contents alternate between the two roles and no turn
is empty.  When every replayed call is followed by the call that it repeats,
the parts are those of the messages, calls and outputs in their order, with
the replayed blocks among them, and signing only adds signatures: each model
turn since the user last wrote text has its first call signed.
-/

namespace Codex.Gemini.WellFormedContents

open List hiding lookup
open Contents Library.KeyedRuns Protocol.JsonValue Protocol.Models

/-! ## What a history asks to send -/

/-- Every item that replays a call is followed by a call. -/
def SignedCallsFollowed : List ResponseItem → Prop
  | [] => True
  | item :: rest =>
    (carriesCall item = true → ∃ call ∈ rest.head?, isCall call = true) ∧
      SignedCallsFollowed rest

def replayedCall : ResponseItem → Option Value
  | .reasoning _ _ _ _ _ (some block) => if hasFunctionCall block then some block else none
  | _ => none

/--
The parts of an item, where a call may be `replayed` by the item before it.
-/
def itemParts (codec : JsonCodec) (names : List (String × String))
    (replayed : Option Value) : ResponseItem → List Value
  | .message _ role content _ =>
    if messageRole role = none then [] else content.filterMap contentPart
  | .functionCall _ name _ args _ => [replayed.getD (callPart codec name args)]
  | .functionCallOutput callId output => [responsePart names callId output]
  | .reasoning _ _ _ _ _ (some block) => if hasFunctionCall block then [] else [block]
  | _ => []

def partsInOrder (codec : JsonCodec) (names : List (String × String)) :
    (replayed : Option Value) → List ResponseItem → List Value
  | _, [] => []
  | replayed, item :: rest =>
    itemParts codec names replayed item ++ partsInOrder codec names (replayedCall item) rest

/-- A part as it is sent: at most a signature has been added. -/
def OnlySigned (part sent : Value) : Prop := sent = part ∨ isSigned part = false ∧
      sent = part.insert "thoughtSignature" (.string syntheticThoughtSignature)

/-- The last turn in which the user wrote text, and what comes after it. -/
def ActiveLoop (contents : List Turn) (start : Turn) (later : List Turn) : Prop :=
  (∃ earlier, contents = earlier ++ start :: later) ∧
    start.asks = true ∧ ∀ turn ∈ later, turn.asks = false

variable {items : List ResponseItem}

/-! ## Before signing -/

section Contributions

variable (codec : JsonCodec) (names : List (String × String))

theorem isSome_replayedCall (item : ResponseItem) :
    (replayedCall item).isSome = carriesCall item := by
  cases item with
  | reasoning id summary content encrypted metadata raw =>
    cases raw with
    | none => rfl
    | some block =>
      simp only [replayedCall, carriesCall]
      split <;> simp_all
  | _ => rfl

theorem parts_itemTurn (item : ResponseItem) :
    (itemTurn codec names item).toList.flatMap Turn.parts =
      itemParts codec names none item ++ (replayedCall item).toList := by
  cases item with
  | message id role content phase =>
    simp only [itemTurn, itemParts, replayedCall, messageTurn]
    cases messageRole role with
    | none => rfl
    | some role => cases content.filterMap contentPart <;> simp
  | reasoning id summary content encrypted metadata raw =>
    cases raw with
    | none => rfl
    | some block =>
      simp only [itemTurn, itemParts, replayedCall]
      split <;> rfl
  | _ => rfl

/--
The run over the items: a block that replays a call is contributed one item
before the call whose part it is.
-/
theorem parts_contributions (replayed : Option Value)
    (next : replayed.isSome = true → ∃ call ∈ items.head?, isCall call = true)
    (followed : SignedCallsFollowed items) :
    replayed.toList ++ (contributions codec names replayed.isSome items).flatMap Turn.parts =
      partsInOrder codec names replayed items := by
  induction items generalizing replayed with
  | nil =>
    cases replayed with
    | none => rfl
    | some block => obtain ⟨call, listed, _⟩ := next rfl; cases listed
  | cons item rest ih =>
    obtain ⟨nextHere, followedLater⟩ := followed
    have later := ih (replayedCall item) (by rw [isSome_replayedCall]; exact nextHere) followedLater
    rw [isSome_replayedCall] at later
    rw [partsInOrder, ← later, contributions, flatMap_append]
    cases replayed with
    | none =>
      simp only [Option.isSome_none, Bool.false_and, Option.toList_none, nil_append]
      rw [if_neg Bool.false_ne_true, parts_itemTurn, append_assoc]
    | some block =>
      obtain ⟨call, listed, calls⟩ := next rfl
      cases listed
      cases item with
      | functionCall => rfl
      | _ => cases calls

theorem contributions_nonempty (covered : Bool) :
    ∀ turn ∈ contributions codec names covered items, turn.parts ≠ [] := by
  induction items generalizing covered with
  | nil => exact forall_mem_nil _
  | cons item rest ih =>
    intro turn listed
    rw [contributions] at listed
    rcases mem_append.mp listed with here | later
    · split at here
      · cases here
      · have shown := Option.mem_toList.mp here
        cases item with
        | message id role content phase =>
          simp only [itemTurn, messageTurn] at shown
          cases known : messageRole role with
          | none => rw [known] at shown; cases shown
          | some known' =>
            rw [known] at shown
            simp only at shown
            split at shown
            · cases shown
            next full =>
              cases shown
              simpa using full
        | functionCall | functionCallOutput => cases shown; exact cons_ne_nil _ _
        | reasoning id summary content encrypted metadata raw =>
          cases raw with
          | none => cases shown
          | some block => cases shown; exact cons_ne_nil _ _
        | _ => cases shown
    · exact ih _ turn later

end Contributions

/-! ## Signing -/

/-- A turn as it is sent: its calls may have been signed. -/
def SignedTurn (turn sent : Turn) : Prop :=
  sent.role = turn.role ∧ List.Forall₂ OnlySigned turn.parts sent.parts

theorem onlySigned_sign (part : Value) : OnlySigned part (sign part) := by
  unfold sign
  split
  · exact Or.inl rfl
  next unsigned => exact Or.inr ⟨by simpa using unsigned, rfl⟩

theorem forall₂_onlySigned_refl (parts : List Value) : Forall₂ OnlySigned parts parts :=
  forall₂_same.mpr fun _ _ => Or.inl rfl

theorem onlySigned_signFirstCall (parts : List Value) :
    Forall₂ OnlySigned parts (signFirstCall parts) := by
  induction parts with
  | nil => exact .nil
  | cons part rest ih =>
    rw [signFirstCall]
    split
    · exact .cons (onlySigned_sign part) (forall₂_onlySigned_refl rest)
    · exact .cons (Or.inl rfl) ih

variable (turn : Turn) {contents sent : List Turn} {part : Value} {parts : List Value}
  {later : List Turn} {start : Turn}

theorem signedTurn_refl : SignedTurn turn turn := ⟨rfl, forall₂_onlySigned_refl turn.parts⟩

theorem signedTurn_signTurn : SignedTurn turn (signTurn turn) := by
  unfold signTurn
  split
  · exact ⟨rfl, onlySigned_signFirstCall turn.parts⟩
  · exact signedTurn_refl turn

theorem signedTurn_ensure (contents : List Turn) : Forall₂ SignedTurn contents
      (ensureActiveLoopHasThoughtSignatures contents) := by
  unfold ensureActiveLoopHasThoughtSignatures
  split
  · exact forall₂_same.mpr fun turn _ => signedTurn_refl turn
  next start _ =>
    have front : Forall₂ SignedTurn (contents.take start) (contents.take start) :=
      forall₂_same.mpr fun turn _ => signedTurn_refl turn
    have back : Forall₂ SignedTurn (contents.drop start) ((contents.drop start).map signTurn) := by
      rw [forall₂_map_right_iff]
      exact forall₂_same.mpr fun turn _ => signedTurn_signTurn turn
    have whole : Forall₂ SignedTurn (contents.take start ++ contents.drop start)
        (contents.take start ++ (contents.drop start).map signTurn) :=
      rel_append front back
    rwa [take_append_drop] at whole

variable (signed : List.Forall₂ SignedTurn contents sent)
include signed

theorem roles_of_signedTurns : sent.map Turn.role = contents.map Turn.role := by
  induction signed with
  | nil => rfl
  | cons turn _ ih => rw [map_cons, map_cons, turn.1, ih]

theorem parts_of_signedTurns :
    Forall₂ OnlySigned (contents.flatMap Turn.parts) (sent.flatMap Turn.parts) := by
  induction signed with
  | nil => exact .nil
  | cons turn _ ih =>
    rw [flatMap_cons, flatMap_cons]
    exact rel_append turn.2 ih

theorem nonempty_of_signedTurns (full : ∀ turn ∈ contents, turn.parts ≠ []) :
    ∀ turn ∈ sent, turn.parts ≠ [] := by
  induction signed with
  | nil => exact forall_mem_nil _
  | @cons before after _ _ turn _ ih =>
    rw [forall_mem_cons] at full ⊢
    refine ⟨fun empty => full.1 ?_, ih full.2⟩
    have sized := turn.2.length_eq
    rw [empty, length_nil] at sized
    exact eq_nil_of_length_eq_zero sized

omit signed

theorem onlySigned_contents (codec : JsonCodec) (input : List ResponseItem) :
    Forall₂ OnlySigned ((contributions codec (callIdToName input) false input).flatMap Turn.parts)
      ((conversationToGeminiContents codec input).flatMap Turn.parts) := by
  rw [conversationToGeminiContents_eq]
  have parts := parts_of_signedTurns (signedTurn_ensure (runs Turn.role join
    (contributions codec (callIdToName input) false input)))
  rwa [flatMap_runs fun _ _ => rfl] at parts

/-- Signing changes no field but the signature. -/
theorem OnlySigned.get_eq {sent : Value} (signed : OnlySigned part sent)
    {key : String} (other : key ≠ "thoughtSignature") : sent.get key = part.get key := by
  rcases signed with rfl | ⟨_, rfl⟩
  · rfl
  · exact Value.get_insert_ne _ _ other

/-- What is read from fields other than the signature is sent as it is. -/
theorem filterMap_of_onlySigned {α : Type*} {sent : List Value}
    (signed : Forall₂ OnlySigned parts sent) (key : String)
    (other : key ≠ "thoughtSignature") (read : Value → Option α) :
    sent.filterMap (fun part => (part.get key).bind read) =
      parts.filterMap fun part => (part.get key).bind read := by
  induction signed with
  | nil => rfl
  | cons part _ ih => rw [filterMap_cons, filterMap_cons, ih, part.get_eq other]

theorem exists_sent_of_mem {sent : List Value} (signed : Forall₂ OnlySigned parts sent)
    (listed : part ∈ parts) : ∃ new ∈ sent, OnlySigned part new := by
  induction signed with
  | nil => cases listed
  | cons here _ ih =>
    rcases mem_cons.mp listed with rfl | later
    · exact ⟨_, mem_cons_self, here⟩
    · obtain ⟨new, newListed, only⟩ := ih later
      exact ⟨new, mem_cons_of_mem _ newListed, only⟩

/-! ## The active loop -/

@[simp]
theorem asks_signTurn : (signTurn turn).asks = turn.asks := by
  unfold signTurn
  split
  next written =>
    have mine : (Role.model == Role.user) = false := rfl
    simp only [Turn.asks, written, mine, Bool.false_and]
  · rfl

theorem signTurn_of_asks {turn : Turn} (asks : turn.asks = true) : signTurn turn = turn := by
  unfold signTurn
  split
  next written => simp [Turn.asks, written] at asks
  · rfl

theorem find?_asks_eq_none {turns : List Turn} (pos : Nat)
    (silent : ∀ turn ∈ turns, turn.asks = false) :
    ((turns.zipIdx pos).reverse.find? fun entry => entry.1.asks) = none := by
  rw [find?_eq_none]
  intro entry listed
  have mem := fst_mem_of_mem_zipIdx (mem_reverse.mp listed)
  rw [silent entry.1 mem]
  exact Bool.false_ne_true

theorem activeLoopStart_eq_some (earlier : List Turn) (asks : start.asks = true)
    (silent : ∀ turn ∈ later, turn.asks = false) :
    activeLoopStart (earlier ++ start :: later) = some earlier.length := by
  unfold activeLoopStart
  rw [zipIdx_append, zipIdx_cons, reverse_append,
    reverse_cons, append_assoc, find?_append, Nat.zero_add,
    find?_asks_eq_none (earlier.length + 1) silent]
  simp [asks]

theorem exists_activeLoop (asked : ∃ turn ∈ contents, turn.asks = true) :
    ∃ start later, ActiveLoop contents start later := by
  induction contents with
  | nil =>
    obtain ⟨turn, listed, _⟩ := asked
    cases listed
  | cons first rest ih =>
    by_cases more : ∃ turn ∈ rest, turn.asks = true
    · obtain ⟨start, later, ⟨earlier, rfl⟩, asks, silent⟩ := ih more
      exact ⟨start, later, ⟨first :: earlier, rfl⟩, asks, silent⟩
    · have silent : ∀ turn ∈ rest, turn.asks = false := by simpa using more
      obtain ⟨turn, listed, asks⟩ := asked
      rcases mem_cons.mp listed with rfl | later
      · exact ⟨turn, rest, ⟨[], rfl⟩, asks, silent⟩
      · rw [silent turn later] at asks
        cases asks

theorem ensure_of_activeLoop {earlier : List Turn} (asks : start.asks = true)
    (silent : ∀ turn ∈ later, turn.asks = false) :
    ensureActiveLoopHasThoughtSignatures (earlier ++ start :: later) =
      earlier ++ start :: later.map signTurn := by
  unfold ensureActiveLoopHasThoughtSignatures
  rw [activeLoopStart_eq_some earlier asks silent]
  simp [signTurn_of_asks asks]

theorem signed_of_activeLoop (active : ActiveLoop (ensureActiveLoopHasThoughtSignatures contents)
      start later) :
    ∃ turns : List Turn, later = turns.map signTurn := by
  obtain ⟨⟨earlier, shape⟩, asks, silent⟩ := active
  by_cases asked : ∃ turn ∈ contents, turn.asks = true
  · obtain ⟨first, turns, ⟨front, rfl⟩, firstAsks, turnsSilent⟩ := exists_activeLoop asked
    rw [ensure_of_activeLoop firstAsks turnsSilent] at shape
    -- The last asking turn of the result is found at two positions.
    have signedSilent : ∀ turn ∈ turns.map signTurn, turn.asks = false := by simpa using turnsSilent
    have mine := activeLoopStart_eq_some earlier asks silent
    have theirs := activeLoopStart_eq_some front firstAsks signedSilent
    rw [shape, mine, Option.some.injEq] at theirs
    have parts := append_inj shape theirs.symm
    rw [List.cons.injEq] at parts
    exact ⟨turns, parts.2.2.symm⟩
  · have none : activeLoopStart contents = none := by
      unfold activeLoopStart
      rw [find?_asks_eq_none 0 (by simpa using asked)]
      rfl
    unfold ensureActiveLoopHasThoughtSignatures at shape
    rw [none] at shape
    simp only at shape
    exact absurd ⟨start, by rw [shape]; simp, asks⟩ asked

theorem isSigned_sign (calls : hasFunctionCall part = true) : isSigned (sign part) = true := by
  unfold sign
  split
  next signed => exact signed
  · cases part with
    | object fields => simp [isSigned, Value.insert, Value.get, lookup_insertField_self]
    | _ => cases calls

theorem isSigned_of_find?_signFirstCall
    (first : (signFirstCall parts).find? hasFunctionCall = some part) : isSigned part = true := by
  induction parts with
  | nil => cases first
  | cons head rest ih =>
    rw [signFirstCall] at first
    split at first
    next calls =>
      have kept : hasFunctionCall (sign head) = true := by
        unfold sign
        split
        · exact calls
        · rwa [hasFunctionCall, Value.get_insert_ne _ _ (by decide)]
      rw [find?_cons_of_pos kept] at first
      cases first
      exact isSigned_sign calls
    next other =>
      rw [find?_cons_of_neg other] at first
      exact ih first

/-! ## The request -/

/--
For every history in which a replayed call is followed by a call: roles
alternate, no turn is empty, the parts are those of the items in their order
up to added signatures, and every model turn of the active loop has its first
call signed.
-/
theorem conversationToGeminiContents_wellFormed (codec : JsonCodec)
    (input : List ResponseItem) (followed : SignedCallsFollowed input) :
    let contents := conversationToGeminiContents codec input
    (contents.map Turn.role).IsChain (· ≠ ·) ∧ (∀ turn ∈ contents, turn.parts ≠ []) ∧
      List.Forall₂ OnlySigned (partsInOrder codec (callIdToName input) none input)
        (contents.flatMap Turn.parts) ∧
      ∀ start later, ActiveLoop contents start later → ∀ turn ∈ later, turn.role = .model →
          ∀ part, turn.parts.find? hasFunctionCall = some part → isSigned part = true := by
  intro contents
  set merged := runs Turn.role join (contributions codec (callIdToName input) false input)
  have shape : contents = ensureActiveLoopHasThoughtSignatures merged :=
    conversationToGeminiContents_eq codec input
  have signed := signedTurn_ensure merged
  rw [← shape] at signed
  refine ⟨?_, ?_, ?_, ?_⟩
  · rw [roles_of_signedTurns signed, isChain_map]
    exact isChain_runs role_join _
  · refine nonempty_of_signedTurns signed ?_
    refine forall_mem_runs (contributions_nonempty codec _ _) ?_
    intro left right _ full _ empty
    exact full (append_eq_nil_iff.mp empty).1
  · have parts := onlySigned_contents codec input
    have ordered := parts_contributions codec (callIdToName input) none (by simp) followed
    rw [Option.toList_none, nil_append, Option.isSome_none] at ordered
    rwa [ordered] at parts
  · intro start later active turn listed written part first
    rw [shape] at active
    obtain ⟨turns, rfl⟩ := signed_of_activeLoop active
    obtain ⟨before, _, rfl⟩ := mem_map.mp listed
    have model : before.role = .model := by
      rw [← written]
      exact (signedTurn_signTurn before).1.symm
    rw [signTurn, if_pos model] at first
    exact isSigned_of_find?_signFirstCall first

/-- A question, a signed call with the item that it repeats, its output. -/
def signedCallHistory : List ResponseItem := [.inputMessage "user" "look",
    .reasoning (some "gemini_sig_0") [] none none none (some (.object [("functionCall", .object
            [("name", .string "ls"), ("args", .emptyObject)]),
          ("thoughtSignature", .string "s")])),
    .functionCall none "ls" none "\x7b\x7d" "gemini_call_0",
    .functionCallOutput "gemini_call_0" ⟨.text "a", none⟩]

theorem signedCallHistory_wellFormed : SignedCallsFollowed signedCallHistory ∧
      ((conversationToGeminiContents constantCodec
        signedCallHistory).map Turn.role).IsChain (· ≠ ·) := by
  have followed : SignedCallsFollowed signedCallHistory := by
    simp [SignedCallsFollowed, signedCallHistory, carriesCall, isCall, ResponseItem.inputMessage]
  exact ⟨followed, (conversationToGeminiContents_wellFormed constantCodec _ followed).1⟩

/--
A replayed block that calls nothing is sent as well: here the history has no
message, no call and no output, and the request has a part.
-/
theorem replayed_thought_is_sent :
    let input : List ResponseItem :=
      [.reasoning (some "gemini_reasoning_0") [] none none none (some (.object
          [("text", .string "hm"), ("thoughtSignature", .string "s")]))]
    SignedCallsFollowed input ∧ (∀ item ∈ input, ∃ block,
        item = .reasoning (some "gemini_reasoning_0") [] none none none (some block) ∧
          hasFunctionCall block = false) ∧
      (conversationToGeminiContents constantCodec input).flatMap Turn.parts = [.object
          [("text", .string "hm"), ("thoughtSignature", .string "s")]] := by
  intro input
  refine ⟨?_, ?_, ?_⟩
  · simp [SignedCallsFollowed, input, carriesCall, hasFunctionCall, Value.get, lookup]
  · simp [input, hasFunctionCall, Value.get, lookup]
  · rw [conversationToGeminiContents_eq]
    decide +kernel

end Codex.Gemini.WellFormedContents
