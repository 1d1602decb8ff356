import Codex.ApplyPatch.Patch

/-!
# The batch parser as a machine over lines

The batch parser looks ahead: a chunk, the chunks of a hunk and the `+` lines
of a new file end at a line that the next function reads again.  Read line by
line it is a machine whose state is the list of finished hunks and the hunk at
work, and whose step either takes the line into that hunk or closes the hunk
and reads the line as a header.
-/

namespace Codex.ApplyPatch.LineMachine

open Rust.Text Rust.Lines Patch List

variable {Problem Value Result : Type} {first : Except Problem Value} {result : Result}

theorem bind_eq_ok {rest : Value → Except Problem Result} (read : first.bind rest = .ok result) :
    ∃ value, first = .ok value ∧ rest value = .ok result := by
  cases first with
  | error problem => cases read
  | ok value => exact ⟨value, rfl, read⟩

theorem map_eq_ok {change : Value → Result} (read : first.map change = .ok result) :
    ∃ value, first = .ok value ∧ change value = result := by
  cases first with
  | error problem => cases read
  | ok value => exact ⟨value, rfl, Except.ok.inj read⟩

/-! ## States and steps -/

/-- Where the machine stands in an update hunk. -/
inductive Place where
  /-- The header has just been read, so that a move may follow. -/
  | start
  /-- No chunk is at work. -/
  | between
  /-- Lines are entered into a chunk. -/
  | within (chunk : UpdateFileChunk)
deriving DecidableEq

def Place.chunks : Place → List UpdateFileChunk
  | .within chunk => [chunk]
  | _ => []

/-- Finished hunks and the hunk at work. -/
inductive LineState where
  | closed (hunks : List Hunk)
  | adding (hunks : List Hunk) (path contents : String)
  | updating (hunks : List Hunk) (path : String) (movePath : Option String)
      (chunks : List UpdateFileChunk) (place : Place)
deriving DecidableEq

def LineState.hunks : LineState → List Hunk
  | .closed hunks => hunks
  | .adding hunks path contents => hunks ++ [.addFile path contents]
  | .updating hunks path movePath chunks place =>
    hunks ++ [.updateFile path movePath (chunks ++ place.chunks)]

def hasLines (chunk : UpdateFileChunk) : Prop := chunk.oldLines ≠ [] ∨ chunk.newLines ≠ []

instance (chunk : UpdateFileChunk) : Decidable (hasLines chunk) :=
  inferInstanceAs (Decidable (_ ∨ _))

/-- Whether the lines may end here. -/
def LineState.Complete : LineState → Prop
  | .updating _ _ _ _ (.within chunk) => hasLines chunk
  | .updating _ _ _ chunks _ => chunks ≠ []
  | _ => True

instance (state : LineState) : Decidable state.Complete :=
  match state with
  | .closed _ => inferInstanceAs (Decidable True)
  | .adding _ _ _ => inferInstanceAs (Decidable True)
  | .updating _ _ _ _ (.within chunk) => inferInstanceAs (Decidable (hasLines chunk))
  | .updating _ _ _ chunks .start => inferInstanceAs (Decidable (chunks ≠ []))
  | .updating _ _ _ chunks .between => inferInstanceAs (Decidable (chunks ≠ []))

/-- A line read as the header of a hunk. -/
def header (hunks : List Hunk) (line : String) : Option LineState :=
  match stripPrefix? (trim line) addFileMarker with
  | some path => some (.adding hunks path "")
  | none =>
    match stripPrefix? (trim line) deleteFileMarker with
    | some path => some (.closed (hunks ++ [.deleteFile path]))
    | none =>
      (stripPrefix? (trim line) updateFileMarker).map
        fun path => .updating hunks path none [] .start

/-- What a line does to an update hunk. -/
inductive BodyStep where
  | stays (movePath : Option String) (chunks : List UpdateFileChunk) (place : Place)
  | leaves (chunks : List UpdateFileChunk)
  | refused
deriving DecidableEq

variable (movePath : Option String)

def openChunk (chunks : List UpdateFileChunk) (line : String) : BodyStep :=
  match openingContext line with
  | some context => .stays movePath chunks (.within (emptyChunk context))
  | none =>
    if chunks = [] then
      match contentEdit line with
      | some edit => .stays movePath chunks (.within (edit (emptyChunk none)))
      | none => .refused
    else .refused

def betweenLine (chunks : List UpdateFileChunk) (line : String) : BodyStep :=
  if isBlank line then .stays movePath chunks .between
  else if startsWith line "*" then if chunks = [] then .refused else .leaves chunks
  else openChunk movePath chunks line

/-- A line after the first one of a chunk. -/
def withinLine (chunks : List UpdateFileChunk)
    (chunk : UpdateFileChunk) (line : String) : BodyStep :=
  if line = eofMarker then
    if hasLines chunk then .stays movePath (chunks ++ [{ chunk with isEndOfFile := true }]) .between
    else .refused
  else
    match contentEdit line with
    | some edit => .stays movePath chunks (.within (edit chunk))
    | none =>
      if hasLines chunk then betweenLine movePath (chunks ++ [chunk]) line
      else .refused

def bodyLine (chunks : List UpdateFileChunk) (place : Place) (line : String) : BodyStep :=
  match place with
  | .start =>
    match stripPrefix? line moveToMarker with
    | some path => .stays (some path) chunks .between
    | none => betweenLine movePath chunks line
  | .between => betweenLine movePath chunks line
  | .within chunk => withinLine movePath chunks chunk line

variable (state : LineState)

def LineState.step (line : String) : Option LineState :=
  match state with
  | .closed hunks => header hunks line
  | .adding hunks path contents =>
    match line.toList with
    | '+' :: tail => some (.adding hunks path (contents ++ String.ofList tail ++ "\n"))
    | _ => header (hunks ++ [.addFile path contents]) line
  | .updating hunks path movePath chunks place =>
    match bodyLine movePath chunks place line with
    | .stays movePath chunks place => some (.updating hunks path movePath chunks place)
    | .leaves chunks => header (hunks ++ [.updateFile path movePath chunks]) line
    | .refused => none

/-- The hunks after all the lines, if they may end there. -/
def LineState.outcome (lines : List String) : Option (List Hunk) := do
  let final ← lines.foldlM LineState.step state
  if final.Complete then some final.hunks else none

@[simp] theorem outcome_nil :
    state.outcome [] = if state.Complete then some state.hunks else none :=
  rfl

open LineState

theorem outcome_cons (line : String) (rest : List String) :
    state.outcome (line :: rest) = (state.step line).bind fun next => next.outcome rest := by
  simp only [outcome, foldlM_cons, Option.bind_eq_bind, Option.bind_assoc]

variable {lines : List String}

theorem outcome_congr {left right : LineState} (ends : lines = [] →
      left.Complete ∧ right.Complete ∧ left.hunks = right.hunks)
    (steps : ∀ line rest, lines = line :: rest → left.step line = right.step line) :
    left.outcome lines = right.outcome lines := by
  cases lines with
  | nil =>
    obtain ⟨leftEnds, rightEnds, same⟩ := ends rfl
    simp [leftEnds, rightEnds, same]
  | cons line rest => rw [outcome_cons, outcome_cons, steps line rest rfl]

variable {line : String}

/-! ## Chunks -/

theorem hasLines_of_contentEdit {edit : UpdateFileChunk → UpdateFileChunk}
    (content : contentEdit line = some edit) (chunk : UpdateFileChunk) : hasLines (edit chunk) := by
  unfold contentEdit at content
  split at content
  all_goals
    cases content
    try simp [hasLines, UpdateFileChunk.keep, UpdateFileChunk.add, UpdateFileChunk.remove]

variable (hunks : List Hunk) (path : String) (movePath : Option String)
  (chunks : List UpdateFileChunk) (lineNumber : Nat)

theorem chunkLines_outcome
    (chunk result : UpdateFileChunk) (parsed used : Nat) (counted : parsed = 0 ↔ ¬ hasLines chunk)
    (someLine : lines = [] → hasLines chunk)
    (read : chunkLines lineNumber chunk parsed lines = .ok (result, used)) :
    ∃ count, used = parsed + count ∧ count ≤ lines.length ∧ (lines ≠ [] → 0 < used) ∧
      outcome (.updating hunks path movePath chunks (.within chunk)) lines =
        outcome (.updating hunks path movePath (chunks ++ [result]) .between)
          (lines.drop count) := by
  induction lines generalizing chunk parsed with
  | nil =>
    simp only [chunkLines, Except.ok.injEq, Prod.mk.injEq] at read
    obtain ⟨rfl, rfl⟩ := read
    refine ⟨0, rfl, le_refl _, fun someLines => absurd rfl someLines, ?_⟩
    simp [LineState.Complete, LineState.hunks, Place.chunks, someLine]
  | cons line rest ih =>
    rw [chunkLines] at read
    have filled : parsed ≠ 0 → hasLines chunk := fun positive => by
      by_contra empty
      exact positive (counted.mpr empty)
    by_cases ending : line = eofMarker
    · rw [if_pos ending] at read
      split at read
      next => cases read
      next positive =>
        simp only [Except.ok.injEq, Prod.mk.injEq] at read
        obtain ⟨rfl, rfl⟩ := read
        refine ⟨1, rfl, by simp, fun _ => Nat.succ_pos _, ?_⟩
        rw [outcome_cons]
        simp [step, bodyLine, withinLine, ending, filled positive]
    · rw [if_neg ending] at read
      cases content : contentEdit line with
      | some edit =>
        rw [content] at read
        have filled := hasLines_of_contentEdit content chunk
        obtain ⟨count, total, bound, -, same⟩ :=
          ih (edit chunk) (parsed + 1) (by simp [filled]) (fun _ => filled) read
        refine ⟨count + 1, by omega, by simpa using bound, fun _ => by omega, ?_⟩
        rw [outcome_cons, drop_succ_cons, ← same]
        simp [step, bodyLine, withinLine, ending, content]
      | none =>
        rw [content] at read
        dsimp only at read
        split at read
        next => cases read
        next positive =>
          simp only [Except.ok.injEq, Prod.mk.injEq] at read
          obtain ⟨rfl, rfl⟩ := read
          refine ⟨0, rfl, by simp, fun _ => Nat.pos_of_ne_zero positive, ?_⟩
          refine outcome_congr (fun empty => by cases empty) ?_
          intro first others same
          obtain ⟨rfl, rfl⟩ := List.cons.inj same
          simp [step, bodyLine, withinLine, ending, content, filled positive]

variable {used : Nat} {rest : List String}

theorem parseUpdateFileChunk_outcome
    (visible : isBlank line = false) (inside : startsWith line "*" = false)
    {chunk : UpdateFileChunk}
    (read : parseUpdateFileChunk (line :: rest) lineNumber chunks.isEmpty = .ok (chunk, used)) :
    1 ≤ used ∧ used ≤ (line :: rest).length ∧
      outcome (.updating hunks path movePath chunks .between) (line :: rest) =
        outcome (.updating hunks path movePath (chunks ++ [chunk]) .between)
          ((line :: rest).drop used) := by
  simp only [parseUpdateFileChunk, bind] at read
  obtain ⟨⟨context, start⟩, opened, read⟩ := bind_eq_ok read
  dsimp only at read
  split at read
  next => cases read
  next room =>
    obtain ⟨⟨result, parsed⟩, body, read⟩ := bind_eq_ok read
    obtain ⟨rfl, rfl⟩ := Prod.mk.inj (Except.ok.inj read)
    obtain ⟨count, total, bound, positive, same⟩ := chunkLines_outcome hunks path movePath chunks
      lineNumber (emptyChunk context) result 0 parsed (by simp [hasLines, emptyChunk])
      (fun empty => absurd (drop_eq_nil_iff.mp empty) room) body
    obtain rfl : parsed = count := by omega
    unfold chunkContext at opened
    split at opened
    next found =>
      obtain ⟨rfl, rfl⟩ := Prod.mk.inj (Except.ok.inj opened)
      rw [drop_one, tail_cons] at bound same
      refine ⟨by omega, by simpa using bound, ?_⟩
      rw [outcome_cons, drop_succ_cons, ← same]
      simp [step, bodyLine, betweenLine, visible, inside, openChunk, found]
    next found =>
      split at opened
      next missing =>
        obtain ⟨rfl, rfl⟩ := Prod.mk.inj (Except.ok.inj opened)
        obtain rfl := List.isEmpty_iff.mp missing
        rw [drop_zero] at same
        refine ⟨positive (by simp), bound, Eq.trans ?_ same⟩
        -- The first line opens the chunk and is its first line.
        refine outcome_congr (fun empty => by cases empty) ?_
        intro first others shape
        obtain ⟨rfl, rfl⟩ := List.cons.inj shape
        have noEnd : line ≠ eofMarker := by
          rintro rfl
          exact absurd inside (by decide)
        have noLines : ¬ hasLines (emptyChunk none) := by simp [hasLines, emptyChunk]
        cases content : contentEdit line with
        | some edit =>
          simp [step, bodyLine, betweenLine, visible,
            inside, openChunk, found, content, withinLine, noEnd]
        | none =>
          simp [step, bodyLine, betweenLine, visible,
            inside, openChunk, found, content, withinLine, noEnd,
            noLines]
      next => cases opened

/-! ## Hunks -/

theorem updateChunks_outcome {rounds : Nat}
    (chunks result : List UpdateFileChunk) (parsed used : Nat)
    (lines : List String) (enough : lines.length ≤ rounds)
    (read : updateChunks lineNumber rounds chunks parsed lines = .ok (result, used)) :
    ∃ count, used = parsed + count ∧ count ≤ lines.length ∧
      outcome (.updating hunks path movePath chunks .between) lines =
        outcome (.updating hunks path movePath result .between) (lines.drop count) ∧
      ∀ line rest, lines.drop count = line :: rest →
        isBlank line = false ∧ startsWith line "*" = true := by
  induction rounds generalizing chunks parsed lines with
  | zero =>
    have nothing : lines = [] := length_eq_zero_iff.mp (Nat.le_zero.mp enough)
    subst nothing
    simp only [updateChunks, Except.ok.injEq, Prod.mk.injEq] at read
    obtain ⟨rfl, rfl⟩ := read
    exact ⟨0, rfl, le_refl _, rfl, by simp⟩
  | succ rounds ih =>
    cases lines with
    | nil =>
      simp only [updateChunks, Except.ok.injEq, Prod.mk.injEq] at read
      obtain ⟨rfl, rfl⟩ := read
      exact ⟨0, rfl, le_refl _, rfl, by simp⟩
    | cons line rest =>
      rw [updateChunks] at read
      simp only [length_cons] at enough
      by_cases blank : isBlank line = true
      · rw [if_pos blank] at read
        obtain ⟨count, total, bound, same, stops⟩ := ih chunks (parsed + 1) rest (by omega) read
        refine ⟨count + 1, by omega, by simpa using bound, ?_, stops⟩
        rw [outcome_cons, drop_succ_cons, ← same]
        simp [step, bodyLine, betweenLine, blank]
      · have visible := Bool.eq_false_iff.mpr blank
        rw [if_neg blank] at read
        by_cases star : startsWith line "*" = true
        · rw [if_pos star] at read
          simp only [Except.ok.injEq, Prod.mk.injEq] at read
          obtain ⟨rfl, rfl⟩ := read
          refine ⟨0, rfl, by simp, rfl, ?_⟩
          intro first others shape
          obtain ⟨rfl, rfl⟩ := List.cons.inj shape
          exact ⟨visible, star⟩
        · rw [if_neg star] at read
          obtain ⟨⟨chunk, taken⟩, parsedChunk, read⟩ := bind_eq_ok read
          obtain ⟨positive, fits, opened⟩ :=
            parseUpdateFileChunk_outcome hunks path movePath chunks (lineNumber + parsed) visible
              (Bool.eq_false_iff.mpr star) parsedChunk
          have left : ((line :: rest).drop taken).length ≤ rounds := by
            rw [length_drop, length_cons]
            omega
          obtain ⟨count, total, bound, same, stops⟩ :=
            ih (chunks ++ [chunk]) (parsed + taken) ((line :: rest).drop taken) left read
          rw [length_drop] at bound
          refine ⟨taken + count, by omega, by omega, ?_, ?_⟩
          · rw [opened, same, drop_drop]
          · rw [← drop_drop]
            exact stops

theorem moveLine_outcome (lines : List String) :
    outcome (.updating hunks path none [] .start) lines = outcome
        (.updating hunks path (lines.head?.bind (stripPrefix? · moveToMarker)) [] .between)
        (lines.drop (if (lines.head?.bind (stripPrefix? · moveToMarker)).isSome then 1
            else 0)) := by
  cases lines with
  | nil => rfl
  | cons line rest =>
    rw [outcome_cons]
    rcases moved : stripPrefix? line moveToMarker with _ | destination
    · simp [step, bodyLine, moved, outcome_cons]
    · simp [step, bodyLine, moved]

theorem closeUpdate_outcome (someChunk : chunks ≠ []) (stops : ∀ line rest, lines = line :: rest →
      isBlank line = false ∧ startsWith line "*" = true) :
    outcome (.updating hunks path movePath chunks .between) lines = outcome
        (.closed (hunks ++ [.updateFile path movePath chunks])) lines := by
  refine outcome_congr ?_ ?_
  · intro _
    exact ⟨someChunk, trivial, by simp [LineState.hunks, Place.chunks]⟩
  · intro line rest shape
    obtain ⟨visible, star⟩ := stops line rest shape
    simp [step, bodyLine, betweenLine, visible, star, someChunk]

theorem updateBody_outcome {hunk : Hunk}
    (read : updateBody path lineNumber lines = .ok (hunk, used)) :
    ∃ count, used = 1 + count ∧ count ≤ lines.length ∧
      outcome (.updating hunks path none [] .start) lines =
        outcome (.closed (hunks ++ [hunk])) (lines.drop count) := by
  rw [moveLine_outcome]
  simp only [updateBody, bind] at read
  generalize destination : lines.head?.bind (stripPrefix? · moveToMarker) = movePath at read ⊢
  generalize counted : (if movePath.isSome then 1 else 0) = skipped at read ⊢
  have fits : skipped ≤ lines.length := by
    rw [← counted]
    split
    next moved =>
      cases lines with
      | nil => simp [← destination] at moved
      | cons line rest => simp
    next => exact Nat.zero_le _
  obtain ⟨⟨chunks, parsed⟩, body, read⟩ := bind_eq_ok read
  dsimp only at read
  split at read
  next => cases read
  next someChunk =>
    obtain ⟨rfl, rfl⟩ := Prod.mk.inj (Except.ok.inj read)
    obtain ⟨count, total, bound, same, stops⟩ := updateChunks_outcome
      hunks path movePath lineNumber [] chunks
      (1 + skipped) parsed (lines.drop skipped)
      (by rw [length_drop]; omega) body
    rw [length_drop] at bound
    refine ⟨skipped + count, by omega, by omega, ?_⟩
    rw [same, ← drop_drop]
    exact closeUpdate_outcome hunks path movePath chunks (by simpa using someChunk) stops

theorem addLines_outcome (contents : String) (lines : List String) :
    (addLines lines).2 ≤ lines.length ∧ outcome (.adding hunks path contents) lines =
        outcome (.closed (hunks ++ [.addFile path (contents ++ (addLines lines).1)]))
          (lines.drop (addLines lines).2) := by
  induction lines generalizing contents with
  | nil => simp [addLines, LineState.Complete, LineState.hunks]
  | cons line rest ih =>
    rw [addLines]
    split
    next tail plus =>
      obtain ⟨bound, same⟩ := ih (contents ++ String.ofList tail ++ "\n")
      refine ⟨by simpa using bound, ?_⟩
      rw [outcome_cons]
      simp only [String.append_assoc] at same
      simp only [step, plus, Option.bind_some, drop_succ_cons, String.append_assoc]
      exact same
    next other =>
      refine ⟨Nat.zero_le _, ?_⟩
      refine outcome_congr (fun empty => by cases empty) ?_
      intro first others shape
      obtain ⟨rfl, rfl⟩ := List.cons.inj shape
      simp only [step, String.append_empty]

theorem parseOneHunk_outcome {lineNumber : Nat} {hunk : Hunk}
    (read : parseOneHunk line rest lineNumber = .ok (hunk, used)) :
    1 ≤ used ∧ used ≤ (line :: rest).length ∧ outcome (.closed hunks) (line :: rest) =
        outcome (.closed (hunks ++ [hunk])) ((line :: rest).drop used) := by
  rw [outcome_cons]
  simp only [step, header]
  simp only [parseOneHunk] at read
  cases add : stripPrefix? (trim line) addFileMarker with
  | some path =>
    simp only [add] at read
    obtain ⟨rfl, rfl⟩ := Prod.mk.inj (Except.ok.inj read)
    obtain ⟨bound, same⟩ := addLines_outcome hunks path "" rest
    refine ⟨Nat.le_add_right _ _, by simp only [length_cons]; omega, ?_⟩
    rw [Nat.add_comm, drop_succ_cons]
    simpa using same
  | none =>
    cases delete : stripPrefix? (trim line) deleteFileMarker with
    | some path =>
      simp only [add, delete] at read
      obtain ⟨rfl, rfl⟩ := Prod.mk.inj (Except.ok.inj read)
      exact ⟨le_refl _, by simp, by simp⟩
    | none =>
      simp only [add, delete] at read
      split at read
      next path opened =>
        obtain ⟨count, rfl, bound, same⟩ := updateBody_outcome hunks path
          lineNumber read
        refine ⟨Nat.le_add_right _ _, by simp only [length_cons]; omega, ?_⟩
        rw [Nat.add_comm, drop_succ_cons]
        simpa [opened] using same
      next => cases read

theorem outcome_of_parseHunks {rounds : Nat} (hunks result : List Hunk)
    (lineNumber : Nat) (lines : List String) (enough : lines.length ≤ rounds)
    (read : parseHunks rounds hunks lineNumber lines = .ok result) :
    outcome (.closed hunks) lines = some result := by
  induction rounds generalizing hunks lineNumber lines with
  | zero =>
    have nothing : lines = [] := length_eq_zero_iff.mp (Nat.le_zero.mp enough)
    subst nothing
    obtain rfl := Except.ok.inj read
    simp [LineState.Complete, LineState.hunks]
  | succ rounds ih =>
    cases lines with
    | nil =>
      obtain rfl := Except.ok.inj read
      simp [LineState.Complete, LineState.hunks]
    | cons line rest =>
      simp only [parseHunks, bind] at read
      obtain ⟨⟨hunk, used⟩, first, read⟩ := bind_eq_ok read
      obtain ⟨positive, fits, same⟩ := parseOneHunk_outcome hunks first
      rw [same]
      refine ih _ _ _ ?_ read
      rw [length_drop]
      simp only [length_cons] at enough ⊢
      omega

end Codex.ApplyPatch.LineMachine
