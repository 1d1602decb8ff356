import Codex.Library.KeyedRuns
import Codex.Protocol.Models

/-!
# The contents of a Gemini request

The model of `conversation_to_gemini_contents` in
`provider-gemini/src/request.rs`.  A loop with look-ahead writes the history
as turns, a second pass merges neighbours of one role, and a third puts a
synthetic signature on the first call of each model turn since the user last
wrote text.
-/

namespace Codex.Gemini.Contents

open Library.KeyedRuns Protocol.JsonValue Protocol.Models List

/-! ## Parts -/

inductive Role where
  | user
  | model
deriving DecidableEq

/-- One entry of `contents`. -/
structure Turn where
  role : Role
  parts : List Value
deriving DecidableEq

def syntheticThoughtSignature : String := "skip_thought_signature_validator"

def messageRole (role : String) : Option Role :=
  if role = "system" ∨ role = "developer" then none
  else if role = "assistant" then some .model
  else some .user

def textPart (text : String) : Value := .object [("text", .string text)]

def contentPart : ContentItem → Option Value
  | .inputText text => some (textPart text)
  | .outputText text => some (textPart text)
  | .inputImage _ _ => none

def callPart (codec : JsonCodec) (name args : String) : Value := .object
    [("functionCall", .object [("name", .string name),
        ("args", (codec.fromStr args).getD .emptyObject)])]

def extractFunctionOutputText (output : FunctionCallOutputPayload) : String :=
  match output.body with
  | .text text => text
  | .contentItems items =>
    "\n".intercalate (items.filterMap fun item =>
      match item with
      | .inputText text => some text
      | _ => none)

def callIdAndName : ResponseItem → Option (String × String)
  | .functionCall _ name _ _ callId => some (callId, name)
  | _ => none

/-- `call_id_to_name`, last call first, so that a later insert wins. -/
def callIdToName (input : List ResponseItem) : List (String × String) :=
  (input.filterMap callIdAndName).reverse

variable (names : List (String × String))

/-- The name that the output of a call is reported under. -/
def responseName (callId : String) : String := (names.lookup callId).getD "unknown_function"

def responsePart (callId : String) (output : FunctionCallOutputPayload) : Value :=
  .object [("functionResponse", .object [("name", .string (responseName names callId)),
        ("response", .object
          [("output", .string (extractFunctionOutputText output))])])]

/-! ## The loop over the items -/

def messageTurn (role : String) (content : List ContentItem) : Option Turn :=
  match messageRole role with
  | none => none
  | some role =>
    let parts := content.filterMap contentPart
    if parts.isEmpty then none else some ⟨role, parts⟩

/-- The loop over consecutive calls: their parts, and the other items. -/
def takeCalls (codec : JsonCodec) : List ResponseItem → List Value × List ResponseItem
  | .functionCall _ name _ args _ :: rest =>
    let taken := takeCalls codec rest
    (callPart codec name args :: taken.1, taken.2)
  | items => ([], items)

/-- The loop over consecutive outputs: their parts, and the other items. -/
def takeOutputs (names : List (String × String)) :
    List ResponseItem → List Value × List ResponseItem
  | .functionCallOutput callId output :: rest =>
    let taken := takeOutputs names rest
    (responsePart names callId output :: taken.1, taken.2)
  | items => ([], items)

/-- The items after the call that a signed block has replayed. -/
def skipCall : List ResponseItem → List ResponseItem
  | .functionCall _ _ _ _ _ :: rest => rest
  | items => items

variable (part : Value)

def hasFunctionCall : Bool := (part.get "functionCall").isSome

/-- The items after a replayed block and the call that it repeats. -/
def afterBlock (block : Value) (items : List ResponseItem) : List ResponseItem :=
  if hasFunctionCall block then skipCall items else items

variable (codec : JsonCodec) (items : List ResponseItem)

theorem length_takeCalls_le : (takeCalls codec items).2.length ≤ items.length := by
  fun_induction takeCalls codec items with
  | case1 id name nameSpace args callId rest taken ih => exact ih.trans (Nat.le_succ _)
  | case2 items other => exact Nat.le_refl _

theorem length_takeOutputs_le : (takeOutputs names items).2.length ≤ items.length := by
  fun_induction takeOutputs names items with
  | case1 callId output rest taken ih => exact ih.trans (Nat.le_succ _)
  | case2 items other => exact Nat.le_refl _

theorem length_afterBlock_le (block : Value) (items : List ResponseItem) :
    (afterBlock block items).length ≤ items.length := by
  unfold afterBlock
  split
  · fun_cases skipCall items with
    | case1 => exact Nat.le_succ _
    | case2 => exact Nat.le_refl _
  · exact Nat.le_refl _

/-- The loop over the items, before turns are merged. -/
def turnsFrom (codec : JsonCodec) (names : List (String × String)) : List ResponseItem → List Turn
  | [] => []
  | .message _ role content _ :: rest =>
    (messageTurn role content).toList ++ turnsFrom codec names rest
  | .functionCall _ name _ args _ :: rest =>
    let taken := takeCalls codec rest
    ⟨.model, callPart codec name args :: taken.1⟩ :: turnsFrom codec names taken.2
  | .functionCallOutput callId output :: rest =>
    let taken := takeOutputs names rest
    ⟨.user, responsePart names callId output :: taken.1⟩ :: turnsFrom codec names taken.2
  | .reasoning _ _ _ _ _ (some block) :: rest =>
    ⟨.model, [block]⟩ :: turnsFrom codec names (afterBlock block rest)
  | _ :: rest => turnsFrom codec names rest
termination_by items => items.length
decreasing_by
  · exact Nat.lt_succ_of_le (Nat.le_refl rest.length)
  · exact Nat.lt_succ_of_le (length_takeCalls_le codec rest)
  · exact Nat.lt_succ_of_le (length_takeOutputs_le names rest)
  · exact Nat.lt_succ_of_le (length_afterBlock_le block rest)
  · exact Nat.lt_succ_of_le (Nat.le_refl rest.length)

/-! ## Merging turns of one role -/

def join (first second : Turn) : Turn where
  role := first.role
  parts := first.parts ++ second.parts

/-- The merging loop, at the turn that the following ones are merged into. -/
def mergeInto (current : Turn) : List Turn → List Turn
  | [] => [current]
  | next :: rest =>
    if current.role = next.role then mergeInto (join current next) rest
    else current :: mergeInto next rest

def mergeConsecutiveSameRole : List Turn → List Turn
  | [] => []
  | first :: rest => mergeInto first rest

/-! ## Signing the calls of the active loop -/

def hasText : Bool := (part.get "text").isSome

/-- A turn in which the user wrote text. -/
def Turn.asks (turn : Turn) : Bool := turn.role == .user && turn.parts.any hasText

variable (contents : List Turn)

/-- The position of the last turn in which the user wrote text. -/
def activeLoopStart : Option Nat :=
  (contents.zipIdx.reverse.find? fun entry => entry.1.asks).map Prod.snd

def isSigned : Bool := (part.get "thoughtSignature").isSome

/-- A part with the synthetic signature, unless it has one already. -/
def sign : Value :=
  if isSigned part then part
  else part.insert "thoughtSignature" (.string syntheticThoughtSignature)

def signFirstCall : List Value → List Value
  | [] => []
  | part :: rest =>
    if hasFunctionCall part then sign part :: rest
    else part :: signFirstCall rest

/-- A turn of the active loop, signed if the model wrote it. -/
def signTurn (turn : Turn) : Turn :=
  if turn.role = .model then { turn with parts := signFirstCall turn.parts }
  else turn

def ensureActiveLoopHasThoughtSignatures : List Turn :=
  match activeLoopStart contents with
  | none => contents
  | some start => contents.take start ++ (contents.drop start).map signTurn

def conversationToGeminiContents (input : List ResponseItem) : List Turn :=
  ensureActiveLoopHasThoughtSignatures (mergeConsecutiveSameRole
      (turnsFrom codec (callIdToName input) input))

/-! ## What the items contribute one by one -/

/-- A reasoning item that replays a call. -/
def carriesCall : ResponseItem → Bool
  | .reasoning _ _ _ _ _ (some block) => hasFunctionCall block
  | _ => false

def isCall : ResponseItem → Bool
  | .functionCall _ _ _ _ _ => true
  | _ => false

def itemTurn (names : List (String × String)) : ResponseItem → Option Turn
  | .message _ role content _ => messageTurn role content
  | .functionCall _ name _ args _ => some ⟨.model, [callPart codec name args]⟩
  | .functionCallOutput callId output => some ⟨.user, [responsePart names callId output]⟩
  | .reasoning _ _ _ _ _ (some block) => some ⟨.model, [block]⟩
  | _ => none

/--
What the items contribute; a call is `covered` when the item before it has
replayed it.
-/
def contributions (codec : JsonCodec) (names : List (String × String)) :
    (covered : Bool) → List ResponseItem → List Turn
  | _, [] => []
  | covered, item :: rest =>
    (if covered && isCall item then []
      else (itemTurn codec names item).toList) ++
      contributions codec names (carriesCall item) rest

section Merging

variable (codec : JsonCodec) (names : List (String × String))

theorem role_join (first second : Turn) : (join first second).role = first.role := rfl

theorem join_assoc (first second third : Turn) :
    join (join first second) third = join first (join second third) := by
  simp [join]

theorem mergeInto_eq (current : Turn) (turns : List Turn) : mergeInto current turns =
      attach Turn.role join current (runs Turn.role join turns) := by
  induction turns generalizing current with
  | nil => rfl
  | cons next rest ih =>
    rw [mergeInto, runs_cons]
    by_cases same : current.role = next.role
    · rw [if_pos same, ih, attach_attach_of_eq role_join join_assoc current next same]
    · rw [if_neg same, ih, attach_attach_of_ne role_join current next same]

theorem mergeConsecutiveSameRole_eq (turns : List Turn) :
    mergeConsecutiveSameRole turns = runs Turn.role join turns := by
  cases turns with
  | nil => rfl
  | cons first rest => exact mergeInto_eq first rest

/-- A part at the end of a turn is a turn of its own that joins it. -/
theorem attach_concat (role : Role) (parts : List Value) (part : Value) (turns : List Turn) :
    attach Turn.role join ⟨role, parts ++ [part]⟩ turns =
      attach Turn.role join ⟨role, parts⟩ (attach Turn.role join ⟨role, [part]⟩ turns) :=
  (attach_attach_of_eq role_join join_assoc ⟨role, parts⟩ ⟨role, [part]⟩ rfl _).symm

theorem attach_takeCalls (parts : List Value) (items : List ResponseItem) :
    attach Turn.role join ⟨.model, parts ++ (takeCalls codec items).1⟩ (runs Turn.role join
          (contributions codec names false (takeCalls codec items).2)) =
      attach Turn.role join ⟨.model, parts⟩
        (runs Turn.role join (contributions codec names false items)) := by
  fun_induction takeCalls codec items generalizing parts with
  | case1 id name nameSpace args callId rest taken ih =>
    have next := ih (parts ++ [callPart codec name args])
    rw [append_assoc] at next
    exact next.trans (attach_concat _ _ _ _)
  | case2 items other => rw [append_nil]

theorem attach_takeOutputs (parts : List Value) (items : List ResponseItem) :
    attach Turn.role join ⟨.user, parts ++ (takeOutputs names items).1⟩ (runs Turn.role join
          (contributions codec names false (takeOutputs names items).2)) =
      attach Turn.role join ⟨.user, parts⟩
        (runs Turn.role join (contributions codec names false items)) := by
  fun_induction takeOutputs names items generalizing parts with
  | case1 callId output rest taken ih =>
    have next := ih (parts ++ [responsePart names callId output])
    rw [append_assoc] at next
    exact next.trans (attach_concat _ _ _ _)
  | case2 items other => rw [append_nil]

theorem contributions_covered (items : List ResponseItem) : contributions codec names true items =
      contributions codec names false (skipCall items) := by
  fun_cases skipCall items with
  | case1 id name nameSpace args callId rest => rfl
  | case2 items other =>
    cases items with
    | nil => rfl
    | cons item rest =>
      have notCall : isCall item = false := by
        cases item with
        | functionCall => exact absurd rfl (other _ _ _ _ _ _)
        | _ => rfl
      simp [contributions, notCall]

/-- Grouping before merging changes nothing. -/
theorem runs_turnsFrom (items : List ResponseItem) :
    runs Turn.role join (turnsFrom codec names items) =
      runs Turn.role join (contributions codec names false items) := by
  fun_induction turnsFrom codec names items with
  | case1 => rfl
  | case2 id role content phase rest ih =>
    have shape : contributions codec names false (.message id role content phase :: rest) =
          (messageTurn role content).toList ++ contributions codec names false rest := rfl
    rw [shape]
    cases messageTurn role content with
    | none => exact ih
    | some turn => simp only [Option.toList_some, singleton_append, runs_cons, ih]
  | case3 id name nameSpace args callId rest taken ih =>
    rw [runs_cons, ih]
    exact attach_takeCalls codec names [callPart codec name args] rest
  | case4 callId output rest taken ih =>
    rw [runs_cons, ih]
    exact attach_takeOutputs codec names [responsePart names callId output] rest
  | case5 id summary content encrypted metadata block rest ih =>
    have shape : contributions codec names false
        (.reasoning id summary content encrypted metadata (some block) :: rest) =
          ⟨.model, [block]⟩ :: contributions codec names (hasFunctionCall block) rest := rfl
    rw [shape, runs_cons, runs_cons, ih]
    unfold afterBlock
    cases hasFunctionCall block with
    | true => rw [if_pos rfl, contributions_covered]
    | false => rfl
  | case6 item rest notMessage notCall notOutput notBlock ih =>
    rw [ih]
    have silent : itemTurn codec names item = none ∧ carriesCall item = false := by
      cases item with
      | message => exact absurd rfl (notMessage _ _ _ _)
      | functionCall => exact absurd rfl (notCall _ _ _ _ _)
      | functionCallOutput => exact absurd rfl (notOutput _ _)
      | reasoning id summary content encrypted metadata raw =>
        cases raw with
        | none => exact ⟨rfl, rfl⟩
        | some block => exact absurd rfl (notBlock _ _ _ _ _ _)
      | _ => exact ⟨rfl, rfl⟩
    simp [contributions, silent]

/--
The contents are the runs of one role among the contributions, with the calls
of the active loop signed.
-/
theorem conversationToGeminiContents_eq (input : List ResponseItem) :
    conversationToGeminiContents codec input = ensureActiveLoopHasThoughtSignatures
        (runs Turn.role join (contributions codec (callIdToName input) false input)) := by
  rw [conversationToGeminiContents, mergeConsecutiveSameRole_eq, runs_turnsFrom]

end Merging

end Codex.Gemini.Contents
