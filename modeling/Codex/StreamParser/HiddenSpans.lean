import Codex.StreamParser.HiddenTags

/-!
# The spans that a hidden tag takes out

With one tag, what the parser takes out of a text does not depend on the chunks
in which the text arrives either, and what it leaves visible is the text with
every span removed: from an opening delimiter to the first closing delimiter
after it, or to the end of the text where there is none.
-/

namespace Codex.StreamParser.HiddenSpans

open Library.StreamedSearch HiddenTags List Option

variable {τ : Type}

/-! ## Contents -/

/--
The contents of the spans that events close, where `current` is the content of
the open span so far, and the content of the span that they leave open.
-/
def spans (current : List Char) : List (Event Bool Char) → List (List Char) × List Char
  | [] => ([], current)
  | .passed true char :: rest => spans (current ++ [char]) rest
  | .passed false _ :: rest => spans current rest
  | .found false :: rest => spans [] rest
  | .found true :: rest =>
    let read := spans [] rest
    (current :: read.1, read.2)

theorem spans_append (current : List Char) (events more : List (Event Bool Char)) :
    spans current (events ++ more) =
      let first := spans current events
      let second := spans first.2 more
      (first.1 ++ second.1, second.2) := by
  fun_induction spans current events with
  | case1 current => rfl
  | case2 current char rest ih => exact ih
  | case3 current char rest ih => exact ih
  | case4 current rest ih => exact ih
  | case5 current rest read ih =>
    simp only [cons_append, spans, ih]
    rfl

variable (current text : List Char)

@[simp]
theorem spans_passed_inside : spans current (text.map (.passed true)) = ([], current ++ text) := by
  induction text generalizing current with
  | nil => simp [spans]
  | cons char rest ih => rw [map_cons, spans, ih, append_assoc, singleton_append]

@[simp]
theorem spans_passed_outside : spans current (text.map (.passed false)) = ([], current) := by
  induction text with
  | nil => rfl
  | cons char rest ih => exact ih

def openContent (active : Option (ActiveTag τ)) : List Char :=
  (active.map ActiveTag.content).getD []

def contentsOf (extracted : List (ExtractedInlineTag τ)) : List (List Char) :=
  extracted.map ExtractedInlineTag.content

variable {parser : InlineHiddenTagParser τ}

section OneTag

variable (spec : InlineTagSpec τ)

/-- What a parser gives out and keeps is what the machine makes of the text. -/
structure Reads (current : List Char) (scanned : Scanned Bool Char) (text : List Char)
    (contents : List (List Char)) (pending : List Char) (active : Option (ActiveTag τ)) :
    Prop where
  text : text = visible scanned.events
  pending : pending = scanned.kept
  mode : active.isSome = scanned.mode
  spans : spans current scanned.events = (contents, openContent active)

theorem pushLoop_reads (fuel : Nat) (pending : List Char)
    (active : Option (ActiveTag τ)) (opened : Opened spec active) :
    let pushed := pushLoop [spec] fuel pending active
    Opened spec pushed.active ∧
      Reads (openContent active) ((tagMachine spec).scan fuel active.isSome pending)
        pushed.visibleText (contentsOf pushed.extracted) pushed.pending pushed.active := by
  induction fuel generalizing pending active with
  | zero => exact ⟨opened, rfl, rfl, rfl, rfl⟩
  | succ fuel ih =>
    cases active with
    | some tag =>
      have close : tag.closeTag = (tagMachine spec).needle true := opened tag rfl
      cases outcome : cut ((tagMachine spec).needle true) pending with
      | some parts =>
        obtain ⟨before, after⟩ := parts
        obtain ⟨still, text, kept, mode, read⟩ := ih after none fun _ mem => nomatch mem
        simp only [pushLoop, close, outcome, isSome_some, Machine.scan]
        refine ⟨still, ?_, kept, mode, ?_⟩
        · rw [text]
          simp [tagMachine]
        · simp only [spans_append, spans_passed_inside, spans]
          exact congrArg (fun found => ((tag.content ++ before) :: found.1, found.2)) read
      | none =>
        simp only [pushLoop, close, outcome, isSome_some, Machine.scan]
        refine ⟨?_, (visible_passed_inside _).symm, drop_held _ _, rfl, spans_passed_inside _ _⟩
        rintro _ ⟨⟩
        rfl
    | none =>
      have needle : (tagMachine spec).needle false = spec.openTag := rfl
      cases outcome : cut spec.openTag pending with
      | some parts =>
        obtain ⟨before, after⟩ := parts
        obtain ⟨still, text, kept, mode, read⟩ :=
          ih after (some ⟨spec.tag, spec.closeTag, []⟩) (by
            rintro _ ⟨⟩
            rfl)
        simp only [pushLoop, findNextOpen_single, outcome,
          map_some, isSome_none, Machine.scan, needle]
        refine ⟨still, ?_, kept, mode, ?_⟩
        · rw [text]
          simp [tagMachine]
        · rw [spans_append, spans_passed_outside]
          exact read
      | none =>
        simp only [pushLoop, findNextOpen_single, outcome, map_none, maxOpenSuffixLength_single,
          isSome_none, Machine.scan, needle]
        exact ⟨opened, (visible_passed_outside _).symm, drop_held _ _, rfl,
          spans_passed_outside _ _⟩

/-- What a parser that is pushed several chunks takes out. -/
def extractAll (parser : InlineHiddenTagParser τ) : List (List Char) → List (List Char)
  | [] => []
  | chunk :: chunks =>
    let (next, out) := parser.pushStr chunk
    contentsOf out.extracted ++ extractAll next chunks

theorem Single.pushStr (single : Single spec parser) (chunk : List Char) :
    let next := (parser.pushStr chunk).1
    let out := (parser.pushStr chunk).2
    Single spec next ∧ Reads (openContent parser.active)
      ((tagMachine spec).scanAll parser.active.isSome (parser.pending ++ chunk))
      out.visibleText (contentsOf out.extracted) next.pending next.active := by
  have pushed := pushLoop_reads spec
    ((parser.pending ++ chunk).length + 1) (parser.pending ++ chunk)
    parser.active single.opened
  simp only [InlineHiddenTagParser.pushStr, single.specs]
  exact ⟨⟨rfl, pushed.1⟩, pushed.2⟩

/-- Chunk by chunk, what is given out is what the pieces pass and close. -/
theorem Single.pushAll_reads (single : Single spec parser) (chunks : List (List Char)) :
    Reads (openContent parser.active)
      ((tagMachine spec).feed parser.active.isSome parser.pending chunks)
      (pushAll parser chunks).2 (extractAll parser chunks)
      (pushAll parser chunks).1.pending (pushAll parser chunks).1.active := by
  induction chunks generalizing parser with
  | nil => exact ⟨rfl, rfl, rfl, rfl⟩
  | cons chunk chunks ih =>
    obtain ⟨next, text, pending, mode, read⟩ := Single.pushStr spec single chunk
    have rest := ih next
    rw [pending, mode] at rest
    simp only [extractAll, pushAll, Machine.feed]
    refine ⟨?_, rest.pending, rest.mode, ?_⟩
    · rw [text, rest.text, visible_append]
    · simp only [spans_append, read, rest.spans]

/-- The chunks of a text together leave what the machine makes of the text. -/
theorem pushAll_new (chunks : List (List Char)) :
    Reads [] ((tagMachine spec).scanAll false chunks.flatten)
      (pushAll (.new [spec]) chunks).2 (extractAll (.new [spec]) chunks)
      (pushAll (.new [spec]) chunks).1.pending (pushAll (.new [spec]) chunks).1.active := by
  have single : Single spec (.new [spec]) := ⟨rfl, fun _ mem => nomatch mem⟩
  have fed := Single.pushAll_reads spec single chunks
  rwa [show (InlineHiddenTagParser.new [spec]).active.isSome = false from rfl,
    (tagMachine spec).feed_eq_scanAll false _ _ rfl] at fed

/-- What a parser that is pushed chunks and then finished takes out. -/
def extractedContents (parser : InlineHiddenTagParser τ)
    (chunks : List (List Char)) : List (List Char) :=
  extractAll parser chunks ++ contentsOf (pushAll parser chunks).1.finish.2.extracted

theorem extracted_finish (parser : InlineHiddenTagParser τ) : contentsOf parser.finish.2.extracted =
      if parser.active.isSome then [openContent parser.active ++ parser.pending]
      else [] := by
  unfold InlineHiddenTagParser.finish
  cases parser.active <;> rfl

theorem extractedContents_chunks (chunks : List (List Char)) :
    extractedContents (.new [spec]) chunks = extractedContents (.new [spec]) [chunks.flatten] := by
  have pieces := pushAll_new spec chunks
  have whole := pushAll_new spec [chunks.flatten]
  rw [flatten_singleton] at whole
  obtain ⟨contents, current⟩ := Prod.mk.inj (pieces.spans.symm.trans whole.spans)
  rw [extractedContents, extractedContents, extracted_finish, extracted_finish, pieces.mode,
    pieces.pending, whole.mode, whole.pending, contents, current]

/-! ## What stays visible -/

theorem length_lt_of_cut {needle text before after : List Char}
    (nonempty : needle ≠ []) (found : cut needle text = some (before, after)) :
    after.length < text.length := by
  have positive := length_pos_iff.mpr nonempty
  rw [cut_eq_some found, length_append, length_append]
  omega

/-- A text without its spans; a span that is not closed goes to the end. -/
def removeSpans (text : List Char) : List Char :=
  match _opens : cut spec.openTag text with
  | none => text
  | some (before, after) =>
    before ++
      match _closes : cut spec.closeTag after with
      | none => []
      | some (_, rest) => removeSpans rest
termination_by text.length
decreasing_by
  exact (length_lt_of_cut spec.closeTag_ne _closes).trans
    (length_lt_of_cut spec.openTag_ne _opens)

theorem removeSpans_of_none {text : List Char} (missing : cut spec.openTag text = none) :
    removeSpans spec text = text := by
  rw [removeSpans]
  split
  · rfl
  next found => rw [missing] at found; cases found

theorem removeSpans_of_open {text before after : List Char}
    (opens : cut spec.openTag text = some (before, after)) :
    removeSpans spec text = before ++ match cut spec.closeTag after with
      | none => []
      | some (_, rest) => removeSpans spec rest := by
  rw [removeSpans]
  split
  next none => rw [opens] at none; cases none
  next found =>
    rw [opens] at found
    cases found
    split
    next missing => rw [missing]
    next closed => rw [closed]

theorem visible_scan (fuel : Nat) (text : List Char) (enough : text.length < fuel) :
    let scanned := (tagMachine spec).scan fuel false text
    visible scanned.events ++ (if scanned.mode then [] else scanned.kept) =
      removeSpans spec text := by
  -- Each span takes two rounds, so that the induction is on the text.
  induction size : text.length using Nat.strong_induction_on generalizing fuel text with
  | _ length ih =>
    obtain ⟨fuel, rfl⟩ : ∃ rounds, fuel = rounds + 1 := ⟨fuel - 1, by omega⟩
    cases opens : cut ((tagMachine spec).needle false) text with
    | none =>
      rw [(tagMachine spec).scan_of_none opens, removeSpans_of_none spec opens]
      simp only [visible_passed_outside]
      exact passed_append _ _
    | some parts =>
      obtain ⟨before, after⟩ := parts
      have shorter := (tagMachine spec).length_after_lt opens
      obtain ⟨fuel, rfl⟩ : ∃ rounds, fuel = rounds + 1 := ⟨fuel - 1, by omega⟩
      rw [(tagMachine spec).scan_of_some opens]
      cases closes : cut ((tagMachine spec).needle true) after with
      | none =>
        have last := (tagMachine spec).scan_of_none closes fuel
        have next : (tagMachine spec).next false = true := rfl
        rw [removeSpans_of_open spec opens, show cut spec.closeTag after = _ from closes, next,
          last]
        simp
      | some inner =>
        obtain ⟨inside, rest⟩ := inner
        have shortest := (tagMachine spec).length_after_lt closes
        have later := ih rest.length (by omega) fuel rest (by omega) rfl
        have next : (tagMachine spec).next false = true := rfl
        have back : (tagMachine spec).next true = false := rfl
        rw [removeSpans_of_open spec opens, show cut spec.closeTag after = _ from closes]
        simp only
        rw [← later, next, (tagMachine spec).scan_of_some closes, back]
        simp

theorem visibleText_eq_removeSpans (chunks : List (List Char)) : visibleText (.new [spec]) chunks =
      removeSpans spec chunks.flatten := by
  have read := pushAll_new spec chunks
  rw [visibleText, visibleText_finish, read.text, read.pending, read.mode]
  exact visible_scan spec _ _ (Nat.lt_succ_self _)

theorem visibleText_chunks (chunks : List (List Char)) : visibleText (.new [spec]) chunks =
      visibleText (.new [spec]) [chunks.flatten] := by
  rw [visibleText_eq_removeSpans, visibleText_eq_removeSpans, flatten_singleton]

end OneTag

end Codex.StreamParser.HiddenSpans
