import Mathlib.Data.List.Infix

/-!
# Offsets into the message history

`message-history/src/lib.rs` keeps prompts in one file, a JSON record a line.  An append may drop
the oldest lines in place; a lookup names a record by the file's identity and its line number.
-/

namespace Codex.Session.MessageHistory

open List

structure HistoryEntry where
  sessionId : String
  ts : Nat
  text : String
deriving DecidableEq

inductive HistoryPersistence where
  | saveAll
  | none
deriving DecidableEq

/-- The history file: `inode` is what `log_identity` reads, and each line ends in a newline. -/
structure HistoryFile where
  inode : Nat
  lines : List String
deriving DecidableEq

def lineLength (line : String) : Nat := line.utf8ByteSize + 1

def fileLength : List String → Nat
  | [] => 0
  | line :: rest => lineLength line + fileLength rest

/-- One call of `append_entry`: the caller's persistence setting and the entry. -/
structure Append where
  persistence : HistoryPersistence
  entry : HistoryEntry

variable {limit : Nat} {lines older : List String} {newest : String}

section Limit

-- `softCap` is the product with `HISTORY_SOFT_CAP_RATIO`, as floats round it.
variable (softCap : Nat → Nat)

def trimTargetBytes (maxBytes newestEntryLen : Nat) : Nat :=
  max (max 1 (min (softCap maxBytes) maxBytes)) newestEntryLen

/-- The trimming loop: it stops at the target and before the newest line. -/
def dropOldest (trimTarget : Nat) : Nat → List String → List String
  | currentLen, line :: next :: rest =>
    if currentLen > trimTarget then
      dropOldest trimTarget (currentLen - lineLength line) (next :: rest)
    else line :: next :: rest
  | _, lines => lines

def enforceHistoryLimit (maxBytes : Option Nat) (lines : List String) : List String :=
  match maxBytes with
  | none => lines
  | some maxBytes =>
    if maxBytes = 0 then lines
    else if fileLength lines ≤ maxBytes then lines
    else
      match lines.getLast? with
      | none => lines
      | some newest =>
        dropOldest (trimTargetBytes softCap maxBytes (lineLength newest)) (fileLength lines) lines

theorem dropOldest_suffix (target current : Nat) (lines : List String) :
    dropOldest target current lines <:+ lines := by
  fun_induction dropOldest target current lines with
  | case1 current line next rest past ih => exact ih.trans (suffix_cons line _)
  | case2 | case3 => exact suffix_rfl

theorem dropOldest_ne_nil (target current : Nat) (nonempty : lines ≠ []) :
    dropOldest target current lines ≠ [] := by
  fun_induction dropOldest target current lines with
  | case1 current line next rest past ih => exact ih (cons_ne_nil _ _)
  | case2 | case3 => exact nonempty

theorem fileLength_dropOldest {target current : Nat} {lines : List String}
    (counted : current = fileLength lines) :
    fileLength (dropOldest target current lines) ≤ target ∨
      (dropOldest target current lines).length ≤ 1 := by
  fun_induction dropOldest target current lines with
  | case1 current line next rest past ih => exact ih (by simp [counted, fileLength])
  | case2 current line next rest within => exact .inl (counted ▸ Nat.not_lt.mp within)
  | case3 current lines short =>
    right
    rcases lines with _ | ⟨line, _ | ⟨next, rest⟩⟩
    · simp
    · simp
    · exact (short line next rest rfl).elim

@[simp]
theorem fileLength_append (older newer : List String) :
    fileLength (older ++ newer) = fileLength older + fileLength newer := by
  induction older with
  | nil => simp [fileLength]
  | cons line rest ih => simp [fileLength, ih, Nat.add_assoc]

theorem fileLength_pos (nonempty : lines ≠ []) : 0 < fileLength lines := by
  obtain ⟨line, rest, rfl⟩ := exists_cons_of_ne_nil nonempty
  simp only [fileLength, lineLength]
  omega

theorem enforceHistoryLimit_of_fits (maxBytes : Option Nat) (lines : List String)
    (fits : ∀ limit ∈ maxBytes, limit = 0 ∨ fileLength lines ≤ limit) :
    enforceHistoryLimit softCap maxBytes lines = lines := by
  cases maxBytes with
  | none => rfl
  | some limit =>
    rcases fits limit rfl with zero | within
    · simp only [enforceHistoryLimit, zero, if_true]
    · simp only [enforceHistoryLimit, within, if_true, ite_self]

theorem enforceHistoryLimit_of_past
    (positive : limit ≠ 0) (past : limit < fileLength (older ++ [newest])) :
    enforceHistoryLimit softCap limit (older ++ [newest]) =
      dropOldest (trimTargetBytes softCap limit (lineLength newest))
        (fileLength (older ++ [newest])) (older ++ [newest]) := by
  simp only [enforceHistoryLimit, positive, if_false, Nat.not_le.mpr past,
    getLast?_append, getLast?_singleton, Option.some_or]

theorem enforceHistoryLimit_of_over
    (positive : limit ≠ 0) (nonempty : older ≠ []) (past : limit < fileLength (older ++ [newest])) :
    ∃ dropped kept, dropped ≠ [] ∧ kept ≠ [] ∧ older ++ [newest] = dropped ++ kept ∧
      enforceHistoryLimit softCap limit (older ++ [newest]) = kept := by
  obtain ⟨oldest, others, rfl⟩ := exists_cons_of_ne_nil nonempty
  obtain ⟨next, rest, tail⟩ := exists_cons_of_ne_nil
    (append_ne_nil_of_right_ne_nil others (cons_ne_nil newest []))
  -- the target is below the size, because the limit is and an older line has bytes too
  have above : trimTargetBytes softCap limit (lineLength newest) <
      fileLength (oldest :: others ++ [newest]) := by
    have rest := fileLength_pos nonempty
    have last : fileLength [newest] = lineLength newest := by simp [fileLength]
    rw [fileLength_append, last] at past ⊢
    simp only [trimTargetBytes]
    omega
  have trimmed : enforceHistoryLimit softCap limit (oldest :: others ++ [newest]) =
      dropOldest (trimTargetBytes softCap limit (lineLength newest))
        (fileLength (oldest :: others ++ [newest]) - lineLength oldest) (next :: rest) := by
    rw [enforceHistoryLimit_of_past softCap positive past]
    generalize fileLength (oldest :: others ++ [newest]) = size at above
    rw [cons_append, tail, dropOldest, if_pos above]
  obtain ⟨more, split⟩ := dropOldest_suffix (trimTargetBytes softCap limit (lineLength newest))
    (fileLength (oldest :: others ++ [newest]) - lineLength oldest) (next :: rest)
  refine ⟨oldest :: more, _, cons_ne_nil _ _, ?_, ?_, trimmed⟩
  · exact dropOldest_ne_nil _ _ (cons_ne_nil _ _)
  · exact congrArg (oldest :: ·) (tail.trans split.symm)

/-- The lines that are kept end in the newest one, and fit or are that one alone. -/
theorem enforceHistoryLimit_kept (positive : limit ≠ 0) (older : List String) (newest : String) :
    ∃ front, enforceHistoryLimit softCap limit (older ++ [newest]) = front ++ [newest] ∧
      front <:+ older ∧ (fileLength (front ++ [newest]) ≤ limit ∨ front = []) := by
  by_cases past : limit < fileLength (older ++ [newest])
  · rw [enforceHistoryLimit_of_past softCap positive past]
    have small := @fileLength_dropOldest (trimTargetBytes softCap limit (lineLength newest)) _
      (older ++ [newest]) rfl
    obtain ⟨front, kept, suffix⟩ :=
      (suffix_concat_iff.mp (dropOldest_suffix _ _ _)).resolve_left
        (dropOldest_ne_nil (trimTargetBytes softCap limit (lineLength newest))
          (fileLength (older ++ [newest])) (by simp))
    rw [kept] at small
    refine ⟨front, kept, suffix, ?_⟩
    rcases small with fits | single
    · by_contra neither
      rw [not_or] at neither
      have others := fileLength_pos neither.2
      simp only [fileLength_append, fileLength, trimTargetBytes] at fits neither
      omega
    · exact .inr (by simpa using single)
  · have fits := Nat.not_lt.mp past
    exact ⟨older, enforceHistoryLimit_of_fits softCap limit _
      (fun _ set => .inr (Option.mem_some.mp set ▸ fits)), suffix_rfl, .inl fits⟩

end Limit

section Runs

-- `toJson` and `fromStr` are `serde_json` on entries; `maxBytes` is the setting all share.
variable (softCap : Nat → Nat) (toJson : HistoryEntry → String)
  (fromStr : String → Option HistoryEntry) (maxBytes : Option Nat)
  (inode : Nat) (file : Option HistoryFile) (appends : List Append)

/-- `append_entry`, under the exclusive lock; the first one creates the file as `inode`. -/
def appendEntry (append : Append) : Option HistoryFile :=
  match append.persistence with
  | .none => file
  | .saveAll =>
    let opened := file.getD ⟨inode, []⟩
    some { opened with
      lines := enforceHistoryLimit softCap maxBytes (opened.lines ++ [toJson append.entry]) }

/-- `history_metadata`: the identity and the number of lines. -/
def historyMetadata : Option HistoryFile → Nat × Nat
  | none => (0, 0)
  | some file => (file.inode, file.lines.length)

/-- `lookup`, under the shared lock. -/
def lookup (logId offset : Nat) (file : Option HistoryFile) : Option HistoryEntry :=
  file.bind fun file =>
    if logId ≠ 0 ∧ file.inode ≠ logId then none
    else file.lines[offset]?.bind fromStr

/-- The file after some appends, in the order in which they held the lock. -/
def afterAppends : Option HistoryFile :=
  appends.foldl (appendEntry softCap toJson maxBytes inode) file

def savedLines : List String := (appends.filter (·.persistence = .saveAll)).map (toJson ·.entry)

/-- The lines of the file, none while it does not exist. -/
def linesOf : List String := file.elim [] HistoryFile.lines

/-- At every later moment an offset of the snapshot shows its entry or nothing. -/
def OffsetsHold : Prop :=
  ∀ done, done <+: appends → ∀ offset < (historyMetadata file).2,
    let found := lookup fromStr (historyMetadata file).1 offset
      (afterAppends softCap toJson maxBytes inode file done)
    found = none ∨ found = (linesOf file)[offset]?.bind fromStr

/-- There is no limit, nothing was in the file or is saved, or all of it fits. -/
def FitsLimit : Prop :=
  ∀ limit ∈ maxBytes, limit = 0 ∨ linesOf file = [] ∨ savedLines toJson appends = [] ∨
    fileLength (linesOf file ++ savedLines toJson appends) ≤ limit

/-- All the lines are records, and no two are of the same entry. -/
def EntriesDiffer : Prop :=
  ((linesOf file ++ savedLines toJson appends).map fromStr).Nodup ∧
    ∀ line ∈ linesOf file ++ savedLines toJson appends, (fromStr line).isSome

variable (inode : Nat)

@[simp]
theorem historyMetadata_snd : (historyMetadata file).2 = (linesOf file).length := by
  cases file <;> rfl

@[simp]
theorem linesOf_some (file : HistoryFile) : linesOf (some file) = file.lines := rfl

@[simp]
theorem savedLines_saved (entry : HistoryEntry) (appends : List Append) :
    savedLines toJson (⟨.saveAll, entry⟩ :: appends) =
      toJson entry :: savedLines toJson appends := rfl

theorem afterAppends_of_fits (file : HistoryFile) (appends : List Append)
    (fits : ∀ limit ∈ maxBytes, limit = 0 ∨ savedLines toJson appends = [] ∨
      fileLength (file.lines ++ savedLines toJson appends) ≤ limit) :
    afterAppends softCap toJson maxBytes inode (some file) appends =
      some { file with lines := file.lines ++ savedLines toJson appends } := by
  -- along the run, with the file grown by what was saved so far
  induction appends generalizing file with
  | nil => simp [afterAppends, savedLines]
  | cons append rest ih =>
    obtain ⟨persistence, entry⟩ := append
    cases persistence with
    | none => exact ih file fits
    | saveAll =>
      simp only [savedLines_saved, cons_ne_nil, false_or] at fits ⊢
      have grown := enforceHistoryLimit_of_fits softCap maxBytes
        (file.lines ++ [toJson entry]) (fun limit set =>
          (fits limit set).imp_right fun within => by
            rw [append_cons, fileLength_append] at within
            omega)
      have stepped : appendEntry softCap toJson maxBytes inode (some file) ⟨.saveAll, entry⟩ =
          some { file with lines := file.lines ++ [toJson entry] } := by
        simp only [appendEntry, Option.getD_some, grown]
      simp only [afterAppends, foldl_cons, stepped] at ih ⊢
      rw [ih _ fun limit set => (fits limit set).imp_right fun within =>
        .inr (by simpa using within)]
      simp

/-- A run that passes the limit at some moment drops the first line. -/
theorem exists_dropped (file : HistoryFile) {appends : List Append}
    (positive : limit ≠ 0) (nonempty : file.lines ≠ []) (saved : savedLines toJson appends ≠ [])
    (past : limit < fileLength (file.lines ++ savedLines toJson appends)) :
    ∃ done dropped kept, done <+: appends ∧ dropped ≠ [] ∧ kept ≠ [] ∧
      file.lines ++ savedLines toJson done = dropped ++ kept ∧
      afterAppends softCap toJson limit inode (some file) done =
        some { file with lines := kept } := by
  induction appends generalizing file with
  | nil => exact absurd rfl saved
  | cons append rest ih =>
    obtain ⟨persistence, entry⟩ := append
    cases persistence with
    | none =>
      obtain ⟨done, dropped, kept, before, found⟩ := ih file nonempty saved past
      exact ⟨⟨.none, entry⟩ :: done, dropped, kept, cons_prefix_cons.mpr ⟨rfl, before⟩, found⟩
    | saveAll =>
      by_cases here : limit < fileLength (file.lines ++ [toJson entry])
      · obtain ⟨dropped, kept, first, last, split, trimmed⟩ :=
          enforceHistoryLimit_of_over softCap positive nonempty here
        refine ⟨[⟨.saveAll, entry⟩], dropped, kept, ?_, first, last, split, ?_⟩
        · exact cons_prefix_cons.mpr ⟨rfl, nil_prefix⟩
        · simp only [afterAppends, foldl_cons, foldl_nil, appendEntry, Option.getD_some, trimmed]
      · have grown := enforceHistoryLimit_of_fits softCap limit (file.lines ++ [toJson entry])
          (fun _ set => .inr ((Option.mem_some.mp set) ▸ Nat.not_lt.mp here))
        rw [savedLines_saved, append_cons] at past
        have more : savedLines toJson rest ≠ [] := by
          intro none
          rw [none, append_nil] at past
          exact here past
        obtain ⟨done, dropped, kept, before, first, last, split, ends⟩ := ih
          { file with lines := file.lines ++ [toJson entry] } (by simp) more past
        refine ⟨⟨.saveAll, entry⟩ :: done, dropped, kept, ?_, first, last, ?_, ?_⟩
        · exact cons_prefix_cons.mpr ⟨rfl, before⟩
        · rw [savedLines_saved, append_cons]
          exact split
        · simp only [afterAppends, foldl_cons, appendEntry, Option.getD_some, grown] at ends ⊢
          exact ends

theorem savedLines_before {done appends : List Append} (before : done <+: appends) :
    savedLines toJson done <+: savedLines toJson appends :=
  (before.filter _).map _

theorem lookup_self (offset : Nat) (file : HistoryFile) :
    lookup fromStr file.inode offset (some file) = file.lines[offset]?.bind fromStr := by
  simp [lookup]

/-- Within the limit every offset of a snapshot keeps its meaning; beyond it, if the entries
differ, one comes to show another entry. -/
theorem offsets_hold_within_limit (file : Option HistoryFile)
    (appends : List Append) :
    (FitsLimit toJson maxBytes file appends →
      OffsetsHold softCap toJson fromStr maxBytes inode file appends) ∧
    (EntriesDiffer toJson fromStr file appends →
      OffsetsHold softCap toJson fromStr maxBytes inode file appends →
      FitsLimit toJson maxBytes file appends) := by
  cases file with
  | none => exact ⟨fun _ _ _ _ below => absurd below (Nat.not_lt_zero _), fun _ _ _ _ =>
      .inr (.inl rfl)⟩
  | some file =>
    constructor
    · intro fits done before offset below
      right
      have within := afterAppends_of_fits softCap toJson maxBytes inode file done
        fun limit set => by
          obtain ⟨later, split⟩ := savedLines_before toJson before
          rcases fits limit set with zero | empty | unsaved | within
          · exact .inl zero
          · rw [historyMetadata_snd, empty] at below
            exact absurd below (Nat.not_lt_zero _)
          · rw [unsaved, append_eq_nil_iff] at split
            exact .inr (.inl split.1)
          · rw [← split, ← append_assoc, fileLength_append] at within
            exact .inr (.inr (Nat.le_of_add_right_le within))
      rw [within]
      exact (lookup_self fromStr offset { file with lines := _ }).trans
        (congrArg (·.bind fromStr) (getElem?_append_left (by simpa using below)))
    · intro ⟨differ, readable⟩ hold limit set
      by_contra past
      simp only [linesOf_some, not_or, Nat.not_le] at past
      obtain ⟨positive, nonempty, saved, past⟩ := past
      obtain rfl := Option.mem_def.mp set
      obtain ⟨done, dropped, kept, before, first, last, split, ends⟩ :=
        exists_dropped softCap toJson inode file positive nonempty saved past
      obtain ⟨later, whole⟩ := savedLines_before toJson before
      -- the first line kept now stands where the snapshot's first line stood
      obtain ⟨oldest, others, rfl⟩ := exists_cons_of_ne_nil first
      obtain ⟨shown, rest, rfl⟩ := exists_cons_of_ne_nil last
      have snapshot : file.lines[0]? = some oldest := by
        rw [← getElem?_append_left (length_pos_of_ne_nil nonempty), split]
        rfl
      have lines : linesOf (some file) ++ savedLines toJson appends =
          oldest :: (others ++ shown :: rest ++ later) := by
        rw [← whole, ← append_assoc]
        exact congrArg (· ++ later) split
      rw [lines] at differ readable
      have now := hold done before 0 (by simpa using length_pos_of_ne_nil nonempty)
      have found : lookup fromStr file.inode 0
          (afterAppends softCap toJson (some limit) inode (some file) done) = fromStr shown := by
        rw [ends]
        exact lookup_self fromStr 0 { file with lines := shown :: rest }
      rcases now with missing | same
      · have read := readable shown (by simp)
        rw [← found] at read
        simp [historyMetadata] at missing
        simp [missing] at read
      · have equal : fromStr shown = fromStr oldest := by
          rw [← found]
          exact same.trans (by simp [linesOf, snapshot])
        simp only [map_cons, nodup_cons, mem_map] at differ
        exact differ.1 ⟨shown, by simp, equal⟩

theorem linesOf_afterAppends_saved (appends : List Append) (entry : HistoryEntry) :
    linesOf (afterAppends softCap toJson maxBytes inode none (appends ++ [⟨.saveAll, entry⟩])) =
      enforceHistoryLimit softCap maxBytes
        (linesOf (afterAppends softCap toJson maxBytes inode none appends) ++ [toJson entry]) := by
  simp only [afterAppends, foldl_append, foldl_cons, foldl_nil, appendEntry]
  cases List.foldl (appendEntry softCap toJson maxBytes inode) none appends <;> rfl

theorem linesOf_afterAppends_suffix (positive : limit ≠ 0) (appends : List Append) :
    linesOf (afterAppends softCap toJson limit inode none appends) <:+
      savedLines toJson appends := by
  induction appends using reverseRecOn with
  | nil => exact suffix_rfl
  | append_singleton appends append ih =>
    obtain ⟨persistence, entry⟩ := append
    cases persistence with
    | none => simpa [afterAppends, appendEntry, savedLines] using ih
    | saveAll =>
      obtain ⟨front, kept, suffix, -⟩ := enforceHistoryLimit_kept softCap positive
        (linesOf (afterAppends softCap toJson limit inode none appends)) (toJson entry)
      rw [linesOf_afterAppends_saved, kept]
      obtain ⟨dropped, split⟩ := suffix.trans ih
      exact ⟨dropped, by simp [← append_assoc, split, savedLines]⟩

/-- After every append the file is the newest lines, within the limit or the last one alone, and
none of them goes while they fit. -/
theorem history_keeps_newest_lines {limit : Nat} (positive : limit ≠ 0) (appends : List Append)
    (entry : HistoryEntry) :
    let before := linesOf (afterAppends softCap toJson limit inode none appends)
    let appends := appends ++ [⟨.saveAll, entry⟩]
    let kept := linesOf (afterAppends softCap toJson limit inode none appends)
    kept <:+ savedLines toJson appends ∧ kept.getLast? = some (toJson entry) ∧
      (fileLength kept ≤ limit ∨ kept = [toJson entry]) ∧
      (fileLength (before ++ [toJson entry]) ≤ limit → kept = before ++ [toJson entry]) := by
  intro before appends kept
  refine ⟨linesOf_afterAppends_suffix softCap toJson inode positive _, ?_⟩
  have step : kept = _ := linesOf_afterAppends_saved softCap toJson limit inode _ entry
  obtain ⟨front, shape, -, fits⟩ := enforceHistoryLimit_kept softCap positive before (toJson entry)
  rw [step]
  refine ⟨by rw [shape, getLast?_concat], ?_, fun within => ?_⟩
  · rw [shape]
    exact fits.imp_right fun empty => by rw [empty, nil_append]
  · exact enforceHistoryLimit_of_fits softCap limit _
      (fun _ set => .inr (Option.mem_some.mp set ▸ within))

end Runs

def promptEntry (text : String) : HistoryEntry := ⟨"s", 1, text⟩

/-- `serde_json` on entries whose texts need no escape. -/
def entryLine (entry : HistoryEntry) : String :=
  "\x7b\"session_id\":\"" ++ entry.sessionId ++ "\",\"ts\":" ++ Nat.repr entry.ts ++
    ",\"text\":\"" ++ entry.text ++ "\"\x7d"

/-- It reads back the lines of the prompts below. -/
def readEntry (line : String) : Option HistoryEntry :=
  (["first", "other", "third"].map promptEntry).find? (entryLine · == line)

/-- A file of one line that has room for one more of this length and no third. -/
def shortHistory : HistoryFile := ⟨7, [entryLine (promptEntry "first")]⟩

theorem shortHistory_holds : FitsLimit entryLine (some 82) (some shortHistory)
        [⟨.saveAll, promptEntry "other"⟩] ∧
      OffsetsHold (· * 4 / 5) entryLine readEntry (some 82) 0
        (some shortHistory) [⟨.saveAll, promptEntry "other"⟩] := by
  have fits : FitsLimit entryLine (some 82) (some shortHistory)
      [⟨.saveAll, promptEntry "other"⟩] := by
    intro limit set
    obtain rfl := Option.mem_some.mp set
    exact .inr (.inr (.inr (by decide +kernel)))
  exact ⟨fits, (offsets_hold_within_limit _ _ _ _ 0 _ _).1 fits⟩

/-- The third prompt trims the first away, and offset 0 then shows another prompt. -/
theorem trimmed_offset_shows_another : historyMetadata (some shortHistory) = (7, 1) ∧
      lookup readEntry 7 0 (some shortHistory) = some (promptEntry "first") ∧
      lookup readEntry 7 0
          (afterAppends (· * 4 / 5) entryLine (some 82) 0 (some shortHistory)
            [⟨.saveAll, promptEntry "other"⟩, ⟨.saveAll, promptEntry "third"⟩]) =
        some (promptEntry "third") := by
  decide +kernel

/-- Three prompts of 41 bytes under a limit of 82. -/
theorem third_prompt_kept : (linesOf (afterAppends (· * 4 / 5) entryLine (some 82) 0 none
      ([⟨.saveAll, promptEntry "first"⟩, ⟨.saveAll, promptEntry "other"⟩] ++
        [⟨.saveAll, promptEntry "third"⟩]))).getLast? = some (entryLine (promptEntry "third")) :=
  (history_keeps_newest_lines _ _ 0 (by decide) _ (promptEntry "third")).2.1

end Codex.Session.MessageHistory
