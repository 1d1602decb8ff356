import Codex.FileTools.ReadFile
import Codex.Rust.Lines

/-!
# Enclosing blocks

The indentation mode of `core/src/tools/handlers/read_file.rs` grows a block
around the anchor line.  The run of lines that it grows into is stated here from
the indentation of the lines alone.
-/

namespace Codex.FileTools.IndentedBlocks

open List Rust.Text Rust.Lines ReadFile

variable (records : List LineRecord)

/-! ## Effective indentation -/

/-- The indentation of the last line up to an index that is not blank, if there is one. -/
def indentUpTo (prev index : Nat) : Nat :=
  (((records.take (index + 1)).reverse.find? (!·.isBlank)).map LineRecord.indent).getD prev

theorem getElem?_computeEffectiveIndents (prev index : Nat) :
    (computeEffectiveIndents prev records)[index]? =
      records[index]?.map fun _ => indentUpTo records prev index := by
  induction records generalizing prev index with
  | nil => rfl
  | cons record records ih =>
    -- The first line only counts if no later one is indented.
    cases index <;> cases blank : record.isBlank <;>
      simp [computeEffectiveIndents, indentUpTo, ih, blank, find?_append]

/-- The lines as `read_block` looks at them. -/
def indented : List (LineRecord × Nat) := records.zip (computeEffectiveIndents 0 records)

theorem getElem?_indented (index : Nat) : (indented records)[index]? =
      records[index]?.map fun record => (record, indentUpTo records 0 index) := by
  rw [indented, zip, getElem?_zipWith, getElem?_computeEffectiveIndents]
  cases records[index]? <;> rfl

/-! ## The enclosing run -/

variable (least anchor first stop : Nat)

/-- A line of the file that is indented enough. -/
def Inside (index : Nat) : Prop := index < records.length ∧ least ≤ indentUpTo records 0 index

/-- The line right above a range is not such a line. -/
def Topmost : Prop := ∀ index, index + 1 = first → ¬ Inside records least index

/-- A range of such lines that holds the anchor. -/
structure Around : Prop where
  first_le : first ≤ anchor
  lt_stop : anchor < stop
  inside : ∀ index, first ≤ index → index < stop → Inside records least index

/-- The maximal range. -/
structure EnclosingRun : Prop extends Around records least anchor first stop where
  above : Topmost records least first
  below : ¬ Inside records least stop

variable {records least anchor first stop}

theorem EnclosingRun.contains {start finish : Nat}
    (run : EnclosingRun records least anchor first stop)
    (part : Around records least anchor start finish) : first ≤ start ∧ finish ≤ stop := by
  obtain ⟨⟨firstLe, ltStop, -⟩, above, below⟩ := run
  obtain ⟨startLe, ltFinish, inside⟩ := part
  constructor
  · by_contra! outside
    exact above (first - 1) (by omega) (inside _ (by omega) (by omega))
  · by_contra! outside
    exact below (inside _ (by omega) outside)

/-! ## Ranges of lines -/

variable {index : Nat} {record : LineRecord}

theorem extract_cons (line : records[index]? = some record) (below : index < stop) :
    records.extract index stop = record :: records.extract (index + 1) stop := by
  obtain ⟨inside, rfl⟩ := List.getElem?_eq_some_iff.mp line
  rw [extract, drop_eq_getElem_cons inside, show stop - index = stop - (index + 1) + 1 by omega]
  rfl

theorem extract_concat (line : records[stop]? = some record) (ordered : first ≤ stop) :
    records.extract first (stop + 1) = records.extract first stop ++ [record] := by
  rw [extract, Nat.sub_add_comm ordered, take_add_one, getElem?_drop, Nat.add_sub_cancel' ordered,
    line]
  rfl

theorem mem_extract (line : records[index]? = some record) (above : first ≤ index)
    (below : index < stop) : record ∈ records.extract first stop := by
  refine mem_iff_getElem?.mpr ⟨index - first, ?_⟩
  rw [extract, getElem?_take_of_lt (by omega), getElem?_drop, Nat.add_sub_cancel' above, line]

theorem extract_split {front back : List LineRecord}
    (split : records.extract first stop = front ++ back) :
    front = records.extract first (first + front.length) ∧
      back = records.extract (first + front.length) stop := by
  have short := congrArg length split
  rw [extract, length_take, length_append] at short
  have cut := congrArg (take front.length) split
  have rest := congrArg (drop front.length) split
  rw [extract, take_take, Nat.min_eq_left (by omega), take_left] at cut
  rw [extract, drop_take, drop_drop, drop_left] at rest
  rw [extract, extract, Nat.add_sub_cancel_left, cut, ← rest, Nat.sub_add_eq]
  exact ⟨rfl, rfl⟩

/-! ## The loop -/

section Loop

variable {options : IndentationArgs} {finalLimit : Nat} {cursor : BlockCursor}

/-- The cursors stand around the taken lines, or have stopped. -/
structure Reached (records : List LineRecord) (options : IndentationArgs) (least anchor : Nat)
    (cursor : BlockCursor) (first stop : Nat) : Prop
    extends Around records least anchor first stop where
  out : cursor.out = records.extract first stop
  above : cursor.above = first ∨
    cursor.above = 0 ∧ (options.includeSiblings → Topmost records least first)
  below : cursor.below = stop ∨
    records[cursor.below]? = none ∧ (options.includeSiblings → ¬ Inside records least stop)

variable (reached : Reached records options least anchor cursor first stop)
include reached

theorem takeAbove_reached : ∃ start, Reached records options least anchor
        (takeAbove options least (indented records) cursor) start stop ∧
      (start + 1 = first ∨
        start = first ∧ (options.includeSiblings → Topmost records least first)) := by
  obtain ⟨around, out, above, below⟩ := reached
  have inFile := (around.inside _ around.first_le around.lt_stop).1
  obtain ⟨_ | index, _, _, _, _⟩ := cursor
  · have ends : options.includeSiblings → Topmost records least first := by
      rcases above with rfl | ⟨-, ends⟩
      · exact fun _ index here => absurd here index.succ_ne_zero
      · exact ends
    exact ⟨first, ⟨around, out, .inr ⟨rfl, ends⟩, below⟩, .inr ⟨rfl, ends⟩⟩
  · obtain rfl : index + 1 = first := above.resolve_right fun stopped => nomatch stopped.1
    have inside : index < records.length := Nat.lt_trans around.first_le inFile
    have line : records[index]? = some records[index] := getElem?_eq_getElem inside
    have grown : least ≤ indentUpTo records 0 index → Around records least anchor index stop :=
      fun enough => ⟨Nat.le_of_succ_le around.first_le, around.lt_stop, fun other low high =>
        (Nat.eq_or_lt_of_le low).elim (· ▸ ⟨inside, enough⟩) (around.inside other · high)⟩
    have longer := extract_cons line (Nat.lt_trans around.first_le around.lt_stop)
    simp only at out
    rw [← out] at longer
    simp only [takeAbove, getElem?_indented, line, Option.map_some]
    split_ifs with enough same allowed
    · exact ⟨index, ⟨grown enough, longer.symm, .inl rfl, below⟩, .inl rfl⟩
    · have ends : options.includeSiblings → Topmost records least (index + 1) := by simp [same.2]
      exact ⟨_, ⟨around, out, .inr ⟨rfl, ends⟩, below⟩, .inr ⟨rfl, ends⟩⟩
    · exact ⟨index, ⟨grown enough, longer.symm, .inl rfl, below⟩, .inl rfl⟩
    · have ends : options.includeSiblings → Topmost records least (index + 1) :=
        fun _ _ here inside => enough (Nat.succ_injective here ▸ inside.2)
      exact ⟨_, ⟨around, out, .inr ⟨rfl, ends⟩, below⟩, .inr ⟨rfl, ends⟩⟩

theorem takeBelow_reached : ∃ finish, Reached records options least anchor
        (takeBelow options least (indented records) cursor) first finish ∧
      (finish = stop + 1 ∨
        finish = stop ∧ (options.includeSiblings → ¬ Inside records least stop)) := by
  obtain ⟨around, out, above, below⟩ := reached
  have ordered : first ≤ stop := Nat.le_of_lt (Nat.lt_of_le_of_lt around.first_le around.lt_stop)
  unfold takeBelow
  rw [getElem?_indented]
  cases line : records[cursor.below]? with
  | none =>
    have ends : options.includeSiblings → ¬ Inside records least stop := by
      rcases below with rfl | ⟨-, ends⟩
      · exact fun _ inside => absurd inside.1 (not_lt.mpr (getElem?_eq_none_iff.mp line))
      · exact ends
    exact ⟨stop, ⟨around, out, above, below⟩, .inr ⟨rfl, ends⟩⟩
  | some record =>
    obtain ⟨inside, -⟩ := List.getElem?_eq_some_iff.mp line
    obtain rfl : cursor.below = stop :=
      below.resolve_right fun stopped => nomatch line.symm.trans stopped.1
    have grown : least ≤ indentUpTo records 0 cursor.below →
        Around records least anchor first (cursor.below + 1) := fun enough =>
      ⟨around.first_le, Nat.lt_succ_of_lt around.lt_stop, fun other low high =>
        (Nat.eq_or_lt_of_le (Nat.le_of_lt_succ high)).elim (·.symm ▸ ⟨inside, enough⟩)
          (around.inside other low ·)⟩
    have longer := extract_concat line ordered
    rw [← out] at longer
    have ended : records[(indented records).length]? = none := by
      simpa using (getElem?_indented records (indented records).length).symm
    simp only [Option.map_some]
    split_ifs with enough same counted
    · have ends : options.includeSiblings → ¬ Inside records least cursor.below := by simp [same.2]
      exact ⟨_, ⟨around, out, above, .inr ⟨ended, ends⟩⟩, .inr ⟨rfl, ends⟩⟩
    · exact ⟨_, ⟨grown enough, longer.symm, above, .inl rfl⟩, .inl rfl⟩
    · exact ⟨_, ⟨grown enough, longer.symm, above, .inl rfl⟩, .inl rfl⟩
    · have ends : options.includeSiblings → ¬ Inside records least cursor.below :=
        fun _ inside => enough inside.2
      exact ⟨_, ⟨around, out, above, .inr ⟨ended, ends⟩⟩, .inr ⟨rfl, ends⟩⟩

theorem Reached.length_out : cursor.out.length + first = stop := by
  obtain ⟨⟨firstLe, ltStop, inside⟩, out, -, -⟩ := reached
  have last := (inside (stop - 1) (by omega) (by omega)).1
  rw [out, length_take, length_drop]
  omega

/-- A round that takes no line has reached both ends of the run. -/
theorem takeRound_reached (room : cursor.out.length < finalLimit) :
    ∃ start finish, Reached records options least anchor
        (takeRound options least finalLimit (indented records) cursor) start finish ∧
      finish ≤ start + finalLimit ∧ (finish ≤ start + cursor.out.length →
        options.includeSiblings → Topmost records least start ∧ ¬ Inside records least finish) := by
  have length := reached.length_out
  obtain ⟨start, upper, grown⟩ := takeAbove_reached reached
  have upperLength := upper.length_out
  unfold takeRound
  dsimp only
  split_ifs with full
  · exact ⟨start, stop, upper, by omega, fun short => by omega⟩
  · obtain ⟨finish, lower, grownBelow⟩ := takeBelow_reached upper
    refine ⟨start, finish, lower, by omega, fun short siblings => ?_⟩
    obtain ⟨rfl, top⟩ := grown.resolve_left (by omega)
    obtain ⟨rfl, bottom⟩ := grownBelow.resolve_left (by omega)
    exact ⟨top siblings, bottom siblings⟩

theorem takeRounds_reached (room : cursor.out.length ≤ finalLimit) :
    ∃ start finish, Reached records options least anchor
        (takeRounds options least finalLimit (indented records) cursor) start finish ∧
      finish ≤ start + finalLimit ∧ (options.includeSiblings → start + finalLimit ≤ finish ∨
        Topmost records least start ∧ ¬ Inside records least finish) := by
  fun_induction takeRounds options least finalLimit (indented records) cursor
    generalizing first stop with
  | case1 =>
    rename_i few next longer ih
    obtain ⟨start, finish, later, short, -⟩ := takeRound_reached reached few
    have length : next.out.length + start = finish := later.length_out
    exact ih later (by omega)
  | case2 =>
    rename_i few next stuck
    obtain ⟨start, finish, later, short, ends⟩ := takeRound_reached reached few
    have length : next.out.length + start = finish := later.length_out
    exact ⟨start, finish, later, short, fun siblings => .inr (ends (by omega) siblings)⟩
  | case3 =>
    have length := reached.length_out
    exact ⟨first, stop, reached, by omega, fun _ => .inl (by omega)⟩

end Loop

/-! ## Blank lines at the ends -/

theorem isEmpty_trim (record : LineRecord) : (trim record.raw).isEmpty = record.isBlank := by
  rw [Bool.eq_iff_iff, LineRecord.isBlank]
  refine (isBlank_iff record.raw).trans ?_
  simp [trimStart, String.isEmpty_iff, ← String.toList_eq_nil_iff]

theorem exists_trimmed (p : LineRecord → Bool) (items : List LineRecord) : ∃ front kept back,
    (items.dropWhile p).rdropWhile p = kept ∧ items = front ++ (kept ++ back) ∧
    (∀ record ∈ front ++ back, p record) ∧ (∀ record ∈ kept.head?, p record = false) ∧
    ∀ record ∈ kept.getLast?, p record = false := by
  have first items : ∀ record ∈ (dropWhile p items).head?, p record = false := by
    intro record found
    simpa [Option.mem_def.mp found] using head?_dropWhile_not p items
  refine ⟨items.takeWhile p, _, (items.dropWhile p).rtakeWhile p, rfl, ?_, ?_, ?_, ?_⟩
  · rw [rdropWhile_append_rtakeWhile, takeWhile_append_dropWhile]
  · intro record mem
    exact (mem_append.mp mem).elim mem_takeWhile_imp mem_rtakeWhile_imp
  · intro record found
    obtain ⟨rest, whole⟩ := rdropWhile_prefix p (items.dropWhile p)
    refine first items record ?_
    rw [← whole, head?_append, Option.mem_def.mp found]
    rfl
  · simpa [rdropWhile] using first (items.dropWhile p).reverse

/-! ## The returned lines -/

/-- The least indentation that `max_levels` allows. -/
def minIndent (options : IndentationArgs) (anchorIndent : Nat) : Nat :=
  if options.maxLevels = 0 then 0 else anchorIndent - options.maxLevels * tabWidth

section Returned

variable {fromUtf8Lossy : List UInt8 → String} {file : HostFile} {offset limit most : Nat}
  {options : IndentationArgs}
  (collects : collectFileLines fromUtf8Lossy file = .ok records)
  (several : 2 ≤ records.length)
  (anchors : options.anchorLine.getD offset = anchor + 1)
  (line : records[anchor]? = some record)
  (budget : min limit (options.maxLines.getD limit) = most)
  (two : 2 ≤ most)
  (levels : options.maxLevels * tabWidth < 2 ^ 64)
include collects several anchors line budget two levels

/-- Arguments that ask for several lines get to the loop, or to its buffer. -/
theorem readBlock_eq : readBlock fromUtf8Lossy file offset limit options =
    if 2 ^ 60 ≤ limit then .error .panicked
    else .ok ((trimEmptyLines (takeRounds options
        (minIndent options (indentUpTo records 0 anchor)) (min most records.length)
        (indented records) ⟨anchor, anchor + 1, 0, 0, [record]⟩).out).map
      fun record => numbered record.number record.display) := by
  obtain ⟨inFile, -⟩ := List.getElem?_eq_some_iff.mp line
  have present : (records.isEmpty || decide (records.length < anchor + 1)) = false := by
    simp [← length_eq_zero_iff]
    omega
  have long : min most records.length ≠ 1 := by omega
  have guard : options.maxLines.getD limit ≠ 0 := by omega
  have overflows : capacityOverflows limit = true ↔ 2 ^ 60 ≤ limit := by
    rw [capacityOverflows, decide_eq_true_iff]
    omega
  have anchored := getElem?_indented records anchor
  simp only [indented, line, Option.map_some] at anchored
  simp only [readBlock, anchors, guard, collects, collectBlock, Nat.add_sub_cancel, anchored,
    present, long, if_false, Bool.false_eq_true, Nat.succ_ne_zero, Except.bind, Bind.bind,
    Nat.mod_eq_of_lt levels, budget, overflows, minIndent, indented]

/--
The block that is read is a range of the lines that enclose the anchor, without
blank lines at its ends, and all of them if siblings and enough lines are asked
for.  A limit whose buffer cannot be allocated ends in a panic instead, however
few lines `max_lines` and the file leave of it.
-/
theorem readBlock_enclosing
    (run : EnclosingRun records (minIndent options (indentUpTo records 0 anchor)) anchor
      first stop) :
    (2 ^ 60 ≤ limit → readBlock fromUtf8Lossy file offset limit options = .error .panicked) ∧
    (limit < 2 ^ 60 → ∃ start finish, first ≤ start ∧ start ≤ finish ∧ finish ≤ stop ∧
      readBlock fromUtf8Lossy file offset limit options = .ok ((records.extract start finish).map
        fun record => numbered record.number record.display) ∧
      finish ≤ start + most ∧
      (∀ record ∈ (records.extract start finish).head?, record.isBlank = false) ∧
      (∀ record ∈ (records.extract start finish).getLast?, record.isBlank = false) ∧
      (record.isBlank = false → start ≤ anchor ∧ anchor < finish) ∧
      (options.includeSiblings → records.length ≤ most →
        ∀ record ∈ records.extract first start ++ records.extract finish stop,
          record.isBlank)) := by
  have result := readBlock_eq collects several anchors line budget two levels
  refine ⟨fun large => result.trans (if_pos large), fun within => ?_⟩
  rw [if_neg (Nat.not_le.mpr within)] at result
  have firstLe := run.first_le
  have ltStop := run.lt_stop
  have reached : Reached records options (minIndent options (indentUpTo records 0 anchor)) anchor
      ⟨anchor, anchor + 1, 0, 0, [record]⟩ anchor (anchor + 1) := by
    refine ⟨⟨le_rfl, Nat.lt_succ_self _, fun other low high => ?_⟩, ?_, .inl rfl, .inl rfl⟩
    · exact run.inside other (by omega) (by omega)
    · rw [extract_concat line le_rfl]
      simp [extract]
  obtain ⟨low, high, last, short, ends⟩ :=
    takeRounds_reached reached (show [record].length ≤ min most records.length by simp; omega)
  obtain ⟨front, kept, back, trimmed, split, blank, firstSeen, lastSeen⟩ :=
    exists_trimmed LineRecord.isBlank (records.extract low high)
  obtain ⟨frontIs, restIs⟩ := extract_split split
  obtain ⟨keptIs, backIs⟩ := extract_split restIs.symm
  have inRun := run.contains last.toAround
  have length := last.length_out
  rw [last.out, split, length_append, length_append] at length
  simp only [last.out, trimEmptyLines, isEmpty_trim, trimmed] at result
  refine ⟨low + front.length, low + front.length + kept.length, by omega, by omega, by omega,
    keptIs ▸ result, by omega, keptIs ▸ firstSeen, keptIs ▸ lastSeen, fun visible => ?_,
    fun siblings enough => ?_⟩
  · have seen : record ∉ front ++ back := fun mem => by simp [blank record mem] at visible
    rw [mem_append, not_or] at seen
    constructor
    · by_contra! before
      exact seen.1 (frontIs ▸ mem_extract line last.first_le before)
    · by_contra! after
      exact seen.2 (backIs ▸ mem_extract line after last.lt_stop)
  · have inside := (run.inside (stop - 1) (by omega) (by omega)).1
    obtain ⟨rfl, rfl⟩ : first = low ∧ stop = high := by
      rcases ends siblings with full | ⟨top, bottom⟩
      · omega
      · have outRun := EnclosingRun.contains ⟨last.toAround, top, bottom⟩ run.toAround
        omega
    rwa [← frontIs, ← backIs]

end Returned

/-! ## A block of an indented file -/

def branchFile : HostFile :=
  .present true none ("fn a() \x7b\n    if b \x7b\n        c\n\n        d\n    \x7d\n" ++
    "\x7d\n").toByteArray.data.toList none

/-- Its lines; the blank one counts to the block around it. -/
def branchRecords : List LineRecord :=
  [⟨1, "fn a() \x7b", "fn a() \x7b", 0⟩, ⟨2, "    if b \x7b", "    if b \x7b", 4⟩,
    ⟨3, "        c", "        c", 8⟩, ⟨4, "", "", 0⟩, ⟨5, "        d", "        d", 8⟩,
    ⟨6, "    \x7d", "    \x7d", 4⟩, ⟨7, "\x7d", "\x7d", 0⟩]

def aroundThird : IndentationArgs :=
  { anchorLine := some 3, maxLevels := 1, includeSiblings := true }

theorem branchFile_collects : collectFileLines fromAscii branchFile = .ok branchRecords := by
  decide +kernel

theorem branchFile_enclosing :
    EnclosingRun branchRecords (minIndent aroundThird (indentUpTo branchRecords 0 2)) 2 1 6 := by
  have inside : ∀ index < 6, 1 ≤ index → index < branchRecords.length ∧
      minIndent aroundThird (indentUpTo branchRecords 0 2) ≤
        indentUpTo branchRecords 0 index := by
    decide +kernel
  refine ⟨⟨by decide, by decide, fun index low high => inside index high low⟩, ?_, ?_⟩
  · intro index first inside
    obtain rfl : index = 0 := by omega
    exact absurd inside.2 (by decide +kernel)
  · intro inside
    exact absurd inside.2 (by decide +kernel)

/-- One level around the third line of the file: the branch, from its head to its end. -/
theorem branch_is_read : readBlock fromAscii branchFile 1 2000 aroundThird =
    .ok ["L2:     if b \x7b", "L3:         c", "L4: ", "L5:         d", "L6:     \x7d"] := by
  obtain ⟨start, finish, low, -, high, read, -, -, -, around, whole⟩ :=
    (readBlock_enclosing branchFile_collects (by decide)
      (show aroundThird.anchorLine.getD 1 = 2 + 1 from rfl) rfl
      (show min 2000 (aroundThird.maxLines.getD 2000) = 2000 from rfl) (by decide) (by decide)
      branchFile_enclosing).2 (by decide)
  have blank := whole rfl (by decide)
  obtain ⟨startLe, ltFinish⟩ := around (by decide +kernel)
  -- neither the first nor the last line of the branch is blank
  obtain rfl : start = 1 := by
    by_contra later
    have seen := blank _ (mem_append_left _ (@mem_extract _ 1 start 1 _ rfl le_rfl (by omega)))
    exact absurd seen (by decide +kernel)
  obtain rfl : finish = 6 := by
    by_contra earlier
    have seen := blank _ (mem_append_right _
      (@mem_extract _ finish 6 5 _ rfl (by omega) (by decide)))
    exact absurd seen (by decide +kernel)
  rw [read]
  rfl

/-- A limit too large for the buffer, though only two lines are asked for. -/
theorem large_limit_panics : readBlock fromAscii branchFile 1 (2 ^ 64 - 1)
    { aroundThird with maxLines := some 2 } = .error .panicked := by
  rw [readBlock_eq branchFile_collects (by decide) rfl rfl rfl (by decide) (by decide)]
  rfl

end Codex.FileTools.IndentedBlocks
