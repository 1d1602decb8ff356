import Codex.Library.StreamedSearch

/-!
# Hidden inline tags

`InlineHiddenTagParser` of `utils/stream-parser`: a text arrives in chunks,
spans between an opening and a closing delimiter are taken out of it, and the
end of a chunk is kept back where it may be the start of a delimiter.  Texts
are lists of characters.
-/

namespace Codex.StreamParser.HiddenTags

open Library.StreamedSearch List

variable {τ : Type}

/-! ## The parser -/

structure StreamTextChunk (ε : Type) where
  visibleText : List Char
  extracted : List ε
deriving DecidableEq

structure ExtractedInlineTag (τ : Type) where
  tag : τ
  content : List Char
deriving DecidableEq

/-- `InlineTagSpec`, whose delimiters `new` asserts to be non-empty. -/
structure InlineTagSpec (τ : Type) where
  tag : τ
  openTag : List Char
  closeTag : List Char
  openTag_ne : openTag ≠ []
  closeTag_ne : closeTag ≠ []

structure ActiveTag (τ : Type) where
  tag : τ
  closeTag : List Char
  content : List Char
deriving DecidableEq

structure InlineHiddenTagParser (τ : Type) where
  specs : List (InlineTagSpec τ)
  pending : List Char
  active : Option (ActiveTag τ)

/-- An opening delimiter that is found: its tag and the text around it. -/
structure Opening (τ : Type) where
  spec : InlineTagSpec τ
  before : List Char
  after : List Char

/-- The earlier opening; of two at one place the longer, then the first. -/
def Opening.better (best : Option (Opening τ)) (next : Opening τ) : Option (Opening τ) :=
  match best with
  | none => some next
  | some best =>
    if next.before.length < best.before.length ∨
        (next.before.length = best.before.length ∧
          best.spec.openTag.length < next.spec.openTag.length) then
      some next
    else some best

variable (specs : List (InlineTagSpec τ)) (pending : List Char)

def findNextOpen : Option (Opening τ) :=
  specs.foldl (fun best spec =>
    match cut spec.openTag pending with
    | some (before, after) => Opening.better best ⟨spec, before, after⟩
    | none => best) none

def maxOpenSuffixLength : Nat :=
  specs.foldl (fun longest spec => max longest (held spec.openTag pending)) 0

/-- What the loop of `push_str` has produced and what it leaves. -/
structure Pushed (τ : Type) where
  visibleText : List Char
  extracted : List (ExtractedInlineTag τ)
  pending : List Char
  active : Option (ActiveTag τ)

/--
The loop of `push_str`.  A round that goes on has consumed a delimiter, so that
one round more than there are characters is enough.
-/
def pushLoop (specs : List (InlineTagSpec τ)) : Nat → List Char → Option (ActiveTag τ) → Pushed τ
  | 0, pending, active => ⟨[], [], pending, active⟩
  | fuel + 1, pending, some active =>
    match cut active.closeTag pending with
    | some (before, after) =>
      let rest := pushLoop specs fuel after none
      { rest with
        extracted := ⟨active.tag, active.content ++ before⟩ :: rest.extracted }
    | none =>
      let keep := held active.closeTag pending
      let take := pending.length - keep
      ⟨[], [], pending.drop take, some { active with
          content := active.content ++ pending.take take }⟩
  | fuel + 1, pending, none =>
    match findNextOpen specs pending with
    | some opening =>
      let rest := pushLoop specs fuel opening.after
        (some ⟨opening.spec.tag, opening.spec.closeTag, []⟩)
      { rest with visibleText := opening.before ++ rest.visibleText }
    | none =>
      let keep := maxOpenSuffixLength specs pending
      let take := pending.length - keep
      ⟨pending.take take, [], pending.drop take, none⟩

variable (parser : InlineHiddenTagParser τ)

namespace InlineHiddenTagParser

def new : InlineHiddenTagParser τ := ⟨specs, [], none⟩

def pushStr (chunk : List Char) :
    InlineHiddenTagParser τ × StreamTextChunk (ExtractedInlineTag τ) :=
  let pending := parser.pending ++ chunk
  let pushed := pushLoop parser.specs (pending.length + 1) pending parser.active
  ({ parser with pending := pushed.pending, active := pushed.active },
    ⟨pushed.visibleText, pushed.extracted⟩)

def finish : InlineHiddenTagParser τ × StreamTextChunk (ExtractedInlineTag τ) :=
  match parser.active with
  | some active =>
    ({ parser with pending := [], active := none },
      ⟨[], [⟨active.tag, active.content ++ parser.pending⟩]⟩)
  | none => ({ parser with pending := [] }, ⟨parser.pending, []⟩)

end InlineHiddenTagParser

/-! ## One tag as a machine -/

section OneTag

variable (spec : InlineTagSpec τ)

/-- The delimiter looked for, where `true` is inside the tag. -/
def delimiter : Bool → List Char
  | false => spec.openTag
  | true => spec.closeTag

def tagMachine : Machine Bool Char where
  needle := delimiter spec
  next := not
  nonempty
    | false => spec.openTag_ne
    | true => spec.closeTag_ne

/-- The characters passed outside the tag. -/
def visible (events : List (Event Bool Char)) : List Char := events.filterMap fun
    | .passed false char => some char
    | _ => none

@[simp]
theorem visible_append (events more : List (Event Bool Char)) :
    visible (events ++ more) = visible events ++ visible more := by
  simp [visible]

@[simp]
theorem visible_found (inside : Bool) (events : List (Event Bool Char)) :
    visible (.found inside :: events) = visible events := by
  simp [visible]

@[simp]
theorem visible_passed_outside (text : List Char) : visible (text.map (.passed false)) = text := by
  simp [visible, filterMap_map]

@[simp]
theorem visible_passed_inside (text : List Char) : visible (text.map (.passed true)) = [] := by
  simp [visible, filterMap_map]

theorem findNextOpen_single (pending : List Char) : findNextOpen [spec] pending =
      (cut spec.openTag pending).map fun (before, after) => ⟨spec, before, after⟩ := by
  simp only [findNextOpen, foldl_cons, foldl_nil]
  cases cut spec.openTag pending <;> rfl

theorem maxOpenSuffixLength_single (pending : List Char) :
    maxOpenSuffixLength [spec] pending = held spec.openTag pending := by
  simp [maxOpenSuffixLength]

/-- What is kept back, as the code takes it off the text. -/
theorem drop_held (needle text : List Char) : text.drop (text.length - held needle text) =
      needle.take (held needle text) := by
  have joined := passed_append needle text
  have split := take_append_drop (text.length - held needle text) text
  exact append_cancel_left (split.trans joined.symm)

/-- An active tag is one of the parser's. -/
def Opened (active : Option (ActiveTag τ)) : Prop := ∀ tag ∈ active, tag.closeTag = spec.closeTag

def pushAll (parser : InlineHiddenTagParser τ) :
    List (List Char) → InlineHiddenTagParser τ × List Char
  | [] => (parser, [])
  | chunk :: chunks =>
    let (next, out) := parser.pushStr chunk
    let (last, rest) := pushAll next chunks
    (last, out.visibleText ++ rest)

/-- The parser has one tag, and an active tag is that one. -/
structure Single (parser : InlineHiddenTagParser τ) : Prop where
  specs : parser.specs = [spec]
  opened : Opened spec parser.active

/-- The visible text of a parser that is pushed chunks and then finished. -/
def visibleText (chunks : List (List Char)) : List Char :=
  (pushAll parser chunks).2 ++ (pushAll parser chunks).1.finish.2.visibleText

theorem visibleText_finish : parser.finish.2.visibleText =
      if parser.active.isSome then [] else parser.pending := by
  unfold InlineHiddenTagParser.finish
  cases parser.active <;> rfl

end OneTag

end Codex.StreamParser.HiddenTags
