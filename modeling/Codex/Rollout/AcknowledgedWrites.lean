import Codex.Rollout.Recorder

/-!
# Acknowledged writes are readable once

A barrier of the rollout writer that is acknowledged with success promises
that everything added so far is in the file.  The writer keeps this promise as
long as a line that fails leaves nothing behind: it retries the whole line.
-/

namespace Codex.Rollout.AcknowledgedWrites

open Library.FallibleActions Protocol.JsonValue Protocol.Models Loader List
  Recorder Rust.Lines

/-! ## The property -/

variable (start : Option SessionMeta)

/-- The writer of a new session, or of a resumed one. -/
def startWriter (before : String) : WriterState :=
  match start with
  | some session => createdWriter session before.toByteArray
  | none => resumedWriter before.toByteArray

variable (gitInfos : List (Option Value))

/-- The records that a writer puts before the items it is given. -/
def IsHeader (header : List RolloutItem) : Prop :=
  match start with
  | some session => ∃ gitInfo ∈ gitInfos, header = [sessionMetaItem session gitInfo]
  | none => header = []

/-- The git information that the attempts of a run find. -/
def gitInfosOf (commands : List (RolloutCmd × CommandPlan)) : List (Option Value) :=
  commands.flatMap fun command => [command.2.first.gitInfo, command.2.second.gitInfo]

def addedUpTo (commands : List (RolloutCmd × CommandPlan)) (index : Nat) : List RolloutItem :=
  (commands.take (index + 1)).flatMap fun command => command.1.items

variable (codec : LineCodec)

/--
Loading gives what was there before and then the recorded items, in order and
once each, without new parse errors.
-/
def ReadableOnce (before : String) (recorded : List RolloutItem) (contents : ByteArray) : Prop :=
  if recorded = [] then contents = before.toByteArray
  else
    ∃ loaded, loadRolloutItems codec contents = .ok loaded ∧ loaded.items =
        (loadLines codec before).items ++ recorded.map codec.readBack ∧
      loaded.parseErrors = (loadLines codec before).parseErrors

variable (start : Option SessionMeta) (before : String)

/--
Every acknowledged barrier of a run, once the file is materialized, finds the
session meta and all items added so far readable once.
-/
def AcknowledgedReadable (commands : List (RolloutCmd × CommandPlan)) : Prop :=
  ∀ index outcome, (rolloutWriter codec (startWriter start before) commands)[index]? =
      some outcome →
    outcome.ack = some (.ok ()) →
    outcome.state.isDeferred = false →
    ∃ header, IsHeader start (gitInfosOf commands) header ∧
      ReadableOnce codec before (header ++ addedUpTo commands index) outcome.state.contents

/-! ## Clean failures -/

/-- The line is written, or fails before any of its bytes. -/
def CleanLine (plan : LinePlan) : Prop :=
  match plan.outcome with
  | .written => True
  | .writeFails appended _ => appended = 0
  | .flushFails _ => False

/-- Opening and the last flush may fail, lines only cleanly. -/
def CleanAttempt (plan : AttemptPlan) : Prop :=
  CleanLine plan.metaLine ∧ ∀ index, CleanLine (plan.itemLines index)

def CleanCommand (plan : CommandPlan) : Prop := CleanAttempt plan.first ∧ CleanAttempt plan.second

/-- A clean attempt whose git information is among the given ones. -/
def PlannedAttempt (plan : AttemptPlan) : Prop := CleanAttempt plan ∧ plan.gitInfo ∈ gitInfos

def PlannedCommand (plan : CommandPlan) : Prop :=
  PlannedAttempt gitInfos plan.first ∧ PlannedAttempt gitInfos plan.second

/-! ## What the file holds -/

variable (records : List Record)

/-- The file after records were appended to what was there before. -/
def fileText : ByteArray := (before ++ recordText codec records).toByteArray

theorem fileText_concat (timestamp : Nat) (item : RolloutItem) :
    fileText codec before records ++ (codec.encode timestamp item ++ "\n").toByteArray =
      fileText codec before (records ++ [(timestamp, item)]) := by
  rw [fileText, fileText, recordText_concat, ← String.append_assoc,
    String.toByteArray_append (s := before ++ recordText codec records)]

variable (added : List RolloutItem) (state : WriterState)

/--
The invariant of a run.  Either the session meta is still to be written and
the file is untouched, or the file holds complete records which, followed by
the pending items, are the header and the items added so far.
-/
def Holds : Prop :=
  (state.sessionMeta = start ∧ start ≠ none ∧
    state.pendingItems = added ∧ state.contents = fileText codec before []) ∨
  (state.sessionMeta = none ∧ ∃ records header, IsHeader start gitInfos header ∧
      records.map Prod.snd ++ state.pendingItems = header ++ added ∧
        state.contents = fileText codec before records)

def Drained : Prop :=
  Holds gitInfos codec start before added state ∧ state.sessionMeta = none ∧ state.pendingItems = []

variable {plan : AttemptPlan}

section Invariant

variable {codec : LineCodec} {start : Option SessionMeta} {gitInfos : List (Option Value)}
  {before : String} {added : List RolloutItem} {state : WriterState}

/-- The invariant is about the queue, the session meta and the file. -/
theorem Holds.congr {next : WriterState} (holds : Holds gitInfos codec start before added state)
    (sameMeta : next.sessionMeta = state.sessionMeta)
    (samePending : next.pendingItems = state.pendingItems)
    (sameContents : next.contents = state.contents) :
    Holds gitInfos codec start before added next := by
  rwa [Holds, sameMeta, samePending, sameContents]

theorem holds_startWriter (start : Option SessionMeta) :
    Holds gitInfos codec start before [] (startWriter start before) := by
  have untouched : before.toByteArray = fileText codec before [] := by simp [fileText, recordText]
  cases start with
  | some session => exact Or.inl ⟨rfl, by simp, rfl, untouched⟩
  | none => exact Or.inr ⟨rfl, [], [], rfl, rfl, untouched⟩

theorem Holds.addItems (holds : Holds gitInfos codec start before added state)
    (items : List RolloutItem) :
    Holds gitInfos codec start before (added ++ items) (addItems items state) := by
  rcases holds with ⟨pendingMeta, created, pending, contents⟩ |
    ⟨noMeta, records, header, isHeader, recorded, contents⟩
  · refine Or.inl ⟨pendingMeta, created, ?_, contents⟩
    simp [Recorder.addItems, pending]
  · refine Or.inr ⟨noMeta, records, header, isHeader, ?_, contents⟩
    simp only [Recorder.addItems]
    rw [← append_assoc, recorded, append_assoc]

/-! ## One attempt -/

theorem writeRolloutItem_of_clean (codec : LineCodec) {plan : LinePlan}
    (clean : CleanLine plan) (item : RolloutItem) (contents : ByteArray) :
    writeRolloutItem codec plan item contents = (contents ++
          (codec.encode plan.timestamp item ++ "\n").toByteArray, .ok ()) ∨
      ∃ error, writeRolloutItem codec plan item contents = (contents, .error error) := by
  cases outcome : plan.outcome with
  | written => exact Or.inl (by simp only [writeRolloutItem, outcome])
  | writeFails appended error =>
    rw [CleanLine, outcome] at clean
    simp only at clean
    subst clean
    exact Or.inr ⟨error, by simp [writeRolloutItem, outcome]⟩
  | flushFails error =>
    rw [CleanLine, outcome] at clean
    exact clean.elim

theorem meets_ensureWriterOpen (openError : Option String) :
    Meets (Holds gitInfos codec start before added)
      (ensureWriterOpen openError)
      (fun state => Holds gitInfos codec start before added state ∧ state.writerOpen = true)
      (Holds gitInfos codec start before added) := by
  refine Meets.of_run fun state holds => ?_
  cases isOpen : state.writerOpen with
  | true =>
    refine ⟨state, .ok (), ?_, holds, fun _ => ⟨holds, isOpen⟩⟩
    simp only [ensureWriterOpen, isOpen, if_true]
  | false =>
    cases openError with
    | some error =>
      refine ⟨state, .error error, ?_, holds, by simp⟩
      simp [ensureWriterOpen, isOpen]
    | none =>
      have opened : Holds gitInfos codec start before added { state with
          writerOpen := true, deferredLogFileInfo := false } :=
        holds.congr rfl rfl rfl
      refine ⟨_, .ok (), ?_, opened, fun _ => ⟨opened, rfl⟩⟩
      simp [ensureWriterOpen, isOpen]

theorem Holds.metaWritten {session : SessionMeta} {gitInfo : Option Value}
    (known : gitInfo ∈ gitInfos) (timestamp : Nat)
    (holds : Holds gitInfos codec start before added state)
    (pending : state.sessionMeta = some session) :
    Holds gitInfos codec start before added { state with
      contents := state.contents ++ (codec.encode timestamp (sessionMetaItem session gitInfo) ++
          "\n").toByteArray
      sessionMeta := none } := by
  rcases holds with ⟨isStart, -, queue, contents⟩ | ⟨noMeta, -⟩
  · refine Or.inr ⟨rfl, [(timestamp, sessionMetaItem session gitInfo)],
      [sessionMetaItem session gitInfo], ?_, ?_, ?_⟩
    · rw [← isStart, pending]
      exact ⟨gitInfo, known, rfl⟩
    · simp [queue]
    · simpa [contents] using fileText_concat codec before [] timestamp
        (sessionMetaItem session gitInfo)
  · rw [pending] at noMeta
    cases noMeta

theorem meets_writeSessionMetaIfNeeded (clean : PlannedAttempt gitInfos plan) : Meets
      (fun state => Holds gitInfos codec start before added state ∧ state.writerOpen = true)
      (writeSessionMetaIfNeeded codec plan)
      (fun state => Holds gitInfos codec start before added state ∧
        state.sessionMeta = none ∧ state.writerOpen = true)
      (Holds gitInfos codec start before added) := by
  refine Meets.of_run ?_
  rintro state ⟨holds, isOpen⟩
  cases pending : state.sessionMeta with
  | none =>
    refine ⟨state, .ok (), ?_, holds, fun _ => ⟨holds, pending, isOpen⟩⟩
    simp only [writeSessionMetaIfNeeded, pending]
  | some session =>
    rcases writeRolloutItem_of_clean codec clean.1.1
        (sessionMetaItem session plan.gitInfo) state.contents
      with wrote | ⟨error, failed⟩
    · have written := holds.metaWritten clean.2 plan.metaLine.timestamp pending
      refine ⟨_, .ok (), ?_, written, fun _ => ⟨written, rfl, isOpen⟩⟩
      simp only [writeSessionMetaIfNeeded, pending, isOpen, if_true, wrote]
    · refine ⟨state, .error error, ?_, holds, by simp⟩
      rw [writeSessionMetaIfNeeded]
      simp only [pending, isOpen, if_true, failed]
      rw [← pending, ← isOpen]

/-- The loop appends records for some first items, for all if it succeeds. -/
theorem writeItems_of_clean (codec : LineCodec) (before : String) {plans : Nat → LinePlan}
    (clean : ∀ index, CleanLine (plans index))
    (items : List RolloutItem) (written : Nat) (records : List Record) :
    ∃ more rest result, writeItems codec plans written items (fileText codec before records) =
        (fileText codec before (records ++ more), written + more.length, result) ∧
      items = more.map Prod.snd ++ rest ∧
      (result = .ok () → rest = []) := by
  induction items generalizing written records with
  | nil => exact ⟨[], [], .ok (), by simp [writeItems], rfl, by simp⟩
  | cons item rest ih =>
    rcases writeRolloutItem_of_clean codec (clean written) item (fileText codec before records)
      with wrote | ⟨error, failed⟩
    · rw [fileText_concat] at wrote
      obtain ⟨more, left, result, same, split, done⟩ := ih (written + 1)
          (records ++ [((plans written).timestamp, item)])
      refine ⟨((plans written).timestamp, item) :: more, left, result, ?_, by simp [split], done⟩
      simp only [writeItems, wrote, same, append_assoc,
        singleton_append, length_cons, Prod.mk.injEq,
        true_and, and_true]
      omega
    · refine ⟨[], item :: rest, .error error, ?_, rfl, by simp⟩
      simp only [writeItems, failed, append_nil, length_nil, Nat.add_zero]

theorem Holds.itemsWritten {records more : List Record} {rest header : List RolloutItem}
    (noMeta : state.sessionMeta = none) (isHeader : IsHeader start gitInfos header)
    (recorded : records.map Prod.snd ++ state.pendingItems = header ++ added)
    (split : state.pendingItems = more.map Prod.snd ++ rest) :
    Holds gitInfos codec start before added { state with
      contents := fileText codec before (records ++ more)
      pendingItems := rest } := by
  refine Or.inr ⟨noMeta, records ++ more, header, isHeader, ?_, rfl⟩
  rw [← recorded, split]
  simp

theorem meets_writePendingItemsOnce (clean : PlannedAttempt gitInfos plan) : Meets
      (fun state => Holds gitInfos codec start before added state ∧
        state.sessionMeta = none ∧ state.writerOpen = true)
      (writePendingItemsOnce codec plan) (Drained gitInfos codec start before added)
      (Holds gitInfos codec start before added) := by
  refine Meets.of_run ?_
  rintro state ⟨holds, noMeta, isOpen⟩
  rcases holds with ⟨isStart, created, -⟩ | ⟨-, records, header, isHeader, recorded, contents⟩
  · rw [noMeta] at isStart
    exact absurd isStart.symm created
  · obtain ⟨more, rest, result, same, split, done⟩ :=
      writeItems_of_clean codec before clean.1.2 state.pendingItems 0 records
    rw [← contents, Nat.zero_add] at same
    have left : state.pendingItems.drop more.length = rest := by
      rw [split]
      simp
    have written : Holds gitInfos codec start before added { state with
        contents := fileText codec before (records ++ more)
        pendingItems := rest } :=
      Holds.itemsWritten noMeta isHeader recorded split
    refine ⟨_, result, ?_, written, fun success => ⟨written, noMeta, done success⟩⟩
    simp only [writePendingItemsOnce, isOpen, if_true, same, left]

theorem meets_flushWriter (flushError : Option String) :
    Meets (Drained gitInfos codec start before added) (flushWriter flushError)
      (Drained gitInfos codec start before added)
      (Holds gitInfos codec start before added) := by
  refine Meets.of_run fun state drained => ?_
  have unchanged : (flushWriter flushError state).1 = state := by
    unfold flushWriter
    split
    · cases flushError <;> rfl
    · rfl
  exact ⟨state, (flushWriter flushError state).2,
    Prod.ext unchanged rfl, drained.1, fun _ => drained⟩

theorem meets_writePendingOnce (clean : PlannedAttempt gitInfos plan) :
    Meets (Holds gitInfos codec start before added) (writePendingOnce codec plan)
      (Drained gitInfos codec start before added)
      (Holds gitInfos codec start before added) :=
  (meets_ensureWriterOpen plan.openError).andThen ((meets_writeSessionMetaIfNeeded clean).andThen
      ((meets_writePendingItemsOnce clean).andThen (meets_flushWriter plan.flushError)))

/-! ## Commands -/

variable (holds : Holds gitInfos codec start before added state)
include holds

theorem Holds.enterRecoveryMode (error : String) :
    Holds gitInfos codec start before added (enterRecoveryMode error state) :=
  holds.congr rfl rfl rfl

omit holds in
theorem Drained.clearLoggedError (drained : Drained gitInfos codec start before added state) :
    Drained gitInfos codec start before added (clearLoggedError state) :=
  ⟨drained.1.congr rfl rfl rfl, drained.2⟩

omit holds in
theorem meets_writePendingWithRecovery {plan : CommandPlan} (clean : PlannedCommand gitInfos plan) :
    Meets (Holds gitInfos codec start before added) (writePendingWithRecovery codec plan)
      (Drained gitInfos codec start before added)
      (Holds gitInfos codec start before added) :=
  (meets_writePendingOnce clean.1).withRetry (meets_writePendingOnce clean.2)
    (fun error _ holds => holds.enterRecoveryMode error)
    (fun _ drained => drained.clearLoggedError)

omit holds in
theorem meets_flush {plan : CommandPlan} (clean : PlannedCommand gitInfos plan) :
    Meets (Holds gitInfos codec start before added) (flush codec plan)
      (fun state => Holds gitInfos codec start before added state ∧ (state.isDeferred = false →
          Drained gitInfos codec start before added state))
      (Holds gitInfos codec start before added) := by
  have recovery : Meets (Holds gitInfos codec start before added)
    (writePendingWithRecovery codec plan)
        (Drained gitInfos codec start before added)
        (Holds gitInfos codec start before added) :=
    meets_writePendingWithRecovery clean
  constructor
  · intro state holds outcome
    unfold flush at outcome ⊢
    split
    · next deferred =>
        rw [Bool.and_eq_true] at deferred
        refine ⟨holds, fun materialized => ?_⟩
        rw [materialized] at deferred
        exact absurd deferred.1 Bool.false_ne_true
    · next notDeferred =>
        rw [if_neg notDeferred] at outcome
        have drained := recovery.success state holds outcome
        exact ⟨drained.1, fun _ => drained⟩
  · intro state holds error outcome
    unfold flush at outcome ⊢
    split
    · exact holds
    · next notDeferred =>
        rw [if_neg notDeferred] at outcome
        exact recovery.failure state holds error outcome

theorem Holds.flushIfMaterialized (plan : CommandPlan) (clean : PlannedCommand gitInfos plan) :
    Holds gitInfos codec start before added (flushIfMaterialized codec plan state) := by
  have kept := (meets_flush clean).always (fun _ done => done.1) (fun _ failed => failed) holds
  unfold Recorder.flushIfMaterialized
  split
  · exact holds
  · split
    · next same => rwa [same] at kept
    · next same =>
        rw [same] at kept
        exact kept.enterRecoveryMode _

theorem Holds.handleCommand (plan : CommandPlan) (clean : PlannedCommand gitInfos plan)
    (command : RolloutCmd) :
    Holds gitInfos codec start before (added ++ command.items)
      (handleCommand codec plan command state).state := by
  cases command with
  | addItems items => exact (holds.addItems items).flushIfMaterialized plan clean
  | persist =>
    simp only [RolloutCmd.items, append_nil]
    exact (meets_writePendingWithRecovery clean).always
      (fun _ drained => drained.1) (fun _ failed => failed) holds
  | flush | shutdown =>
    simp only [RolloutCmd.items, append_nil]
    exact (meets_flush clean).always (fun _ done => done.1) (fun _ failed => failed) holds

theorem Holds.drained_of_ack {plan : CommandPlan} (clean : PlannedCommand gitInfos plan)
    {command : RolloutCmd}
    (acknowledged : (Recorder.handleCommand codec plan command state).ack = some (.ok ()))
    (materialized : (Recorder.handleCommand codec plan command state).state.isDeferred = false) :
    Drained gitInfos codec start before (added ++ command.items)
      (Recorder.handleCommand codec plan command state).state := by
  cases command with
  | addItems items => simp [Recorder.handleCommand] at acknowledged
  | persist =>
    simp only [RolloutCmd.items, append_nil]
    exact (meets_writePendingWithRecovery clean).success state
      holds (Option.some.inj acknowledged)
  | flush | shutdown =>
    simp only [RolloutCmd.items, append_nil]
    exact ((meets_flush clean).success state holds (Option.some.inj acknowledged)).2 materialized

/-! ## Runs -/

theorem drained_of_run {commands : List (RolloutCmd × CommandPlan)}
    (clean : ∀ command ∈ commands, PlannedCommand gitInfos command.2) (index : Nat)
    {outcome : Outcome}
    (reached : (rolloutWriter codec state commands)[index]? = some outcome)
    (acknowledged : outcome.ack = some (.ok ())) (materialized : outcome.state.isDeferred = false) :
    Drained gitInfos codec start before (added ++ addedUpTo commands index)
      outcome.state := by
  induction commands generalizing state added index with
  | nil => simp [rolloutWriter] at reached
  | cons first rest ih =>
    obtain ⟨command, plan⟩ := first
    rw [forall_mem_cons] at clean
    have kept := holds.handleCommand plan clean.1 command
    rw [rolloutWriter] at reached
    cases index with
    | zero =>
      rw [getElem?_cons_zero, Option.some.injEq] at reached
      subst reached
      have drained := holds.drained_of_ack clean.1 acknowledged materialized
      simpa [addedUpTo] using drained
    | succ index =>
      rw [getElem?_cons_succ] at reached
      split at reached
      · simp at reached
      · have onward := ih kept clean.2 index reached
        simpa [addedUpTo] using onward

end Invariant

/-! ## The result -/

theorem Drained.readableOnce {codec : LineCodec} {start : Option SessionMeta}
    {gitInfos : List (Option Value)} {before : String}
    {added : List RolloutItem} {state : WriterState}
    (drained : Drained gitInfos codec start before added state) (ends : endsLine before = true)
    (metaTrips : ∀ session ∈ start, ∀ gitInfo ∈ gitInfos,
      RoundTrips codec (sessionMetaItem session gitInfo))
    (itemsTrip : ∀ item ∈ added, RoundTrips codec item) :
    ∃ header, IsHeader start gitInfos header ∧
      ReadableOnce codec before (header ++ added) state.contents := by
  obtain ⟨holds, noMeta, empty⟩ := drained
  rcases holds with ⟨isStart, created, -⟩ | ⟨-, records, header, isHeader, recorded, contents⟩
  · rw [noMeta] at isStart
    exact absurd isStart.symm created
  rw [empty, append_nil] at recorded
  have headerTrips : ∀ item ∈ header, RoundTrips codec item := by
    cases start with
    | none => simp [show header = [] from isHeader]
    | some session =>
      obtain ⟨gitInfo, known, rfl⟩ := isHeader
      simpa using metaTrips session rfl gitInfo known
  have trips : ∀ record ∈ records, RoundTrips codec record.2 := by
    intro record mem
    have inside : record.2 ∈ header ++ added := by
      rw [← recorded]
      exact mem_map_of_mem mem
    rcases mem_append.mp inside with first | later
    · exact headerTrips _ first
    · exact itemsTrip _ later
  refine ⟨header, isHeader, ?_⟩
  rw [ReadableOnce, contents, ← recorded]
  split
  · next none =>
      rw [map_eq_nil_iff] at none
      simp [none, fileText, recordText]
  · next some =>
      have written : records ≠ [] := by
        rintro rfl
        exact some rfl
      have visible : isBlank (before ++ recordText codec records) = false := by
        rw [isBlank_append, isBlank_recordText codec trips written, Bool.and_false]
      refine ⟨_, loadRolloutItems_toByteArray codec visible, ?_, ?_⟩
      · rw [loadLines_append_records codec ends trips, Loaded.items_pushAll, map_map]
        rfl
      · rw [loadLines_append_records codec ends trips, Loaded.parseErrors_pushAll]

/--
In every run of a created or resumed writer in which lines fail only before
their first byte, and which starts from a file that is empty or ends with a
complete line, every acknowledged barrier finds everything added so far
readable once.
-/
theorem acknowledgedReadable_of_clean
    (codec : LineCodec) (start : Option SessionMeta) (before : String)
    (commands : List (RolloutCmd × CommandPlan))
    (metaTrips : ∀ session ∈ start, ∀ gitInfo ∈ gitInfosOf commands,
      RoundTrips codec (sessionMetaItem session gitInfo))
    (itemsTrip : ∀ command ∈ commands, ∀ item ∈ command.1.items, RoundTrips codec item)
    (ends : endsLine before = true)
    (clean : ∀ command ∈ commands, CleanCommand command.2) :
    AcknowledgedReadable codec start before commands := by
  intro index outcome reached acknowledged materialized
  have planned : ∀ command ∈ commands, PlannedCommand (gitInfosOf commands) command.2 := by
    intro command mem
    refine ⟨⟨(clean command mem).1, ?_⟩, (clean command mem).2, ?_⟩ <;>
      exact mem_flatMap.mpr ⟨command, mem, by simp⟩
  have drained := drained_of_run (holds_startWriter start) planned
    index reached acknowledged materialized
  rw [nil_append] at drained
  refine drained.readableOnce ends metaTrips fun item mem => ?_
  obtain ⟨command, taken, inside⟩ := mem_flatMap.mp mem
  exact itemsTrip command (mem_of_mem_take taken) item inside

/-! ## A run with the lines of serde -/

def digits : Nat → Nat → List Char
  | 0, _ => []
  | count + 1, number => digits count (number / 10) ++ [Nat.digitChar (number % 10)]

/-- `[year]-[month]-[day]T[hour]:[minute]:[second].[subsecond digits:3]Z`. -/
def formatTimestamp (millis : Nat) : List Char :=
  -- The date is found in eras of 400 years that begin in March.
  let era := (millis / 86400000 + 719468) / 146097
  let dayOfEra := (millis / 86400000 + 719468) % 146097
  let yearOfEra := (dayOfEra - dayOfEra / 1460 + dayOfEra / 36524 - dayOfEra / 146096) / 365
  let dayOfYear := dayOfEra - (365 * yearOfEra + yearOfEra / 4 - yearOfEra / 100)
  let shifted := (5 * dayOfYear + 2) / 153
  let month := if shifted < 10 then shifted + 3 else shifted - 9
  let year := yearOfEra + era * 400 + (if month ≤ 2 then 1 else 0)
  digits 4 year ++ '-' :: digits 2 month ++ '-' ::
    digits 2 (dayOfYear - (153 * shifted + 2) / 5 + 1) ++ 'T' ::
    digits 2 (millis / 3600000 % 24) ++ ':' :: digits 2 (millis / 60000 % 60) ++ ':' ::
    digits 2 (millis / 1000 % 60) ++ '.' :: digits 3 (millis % 1000) ++ ['Z']

theorem length_digits (count number : Nat) : (digits count number).length = count := by
  induction count generalizing number with
  | zero => rfl
  | succ count ih => simp [digits, ih]

theorem length_formatTimestamp (millis : Nat) : (formatTimestamp millis).length = 24 := by
  simp [formatTimestamp, length_digits]

theorem newline_notMem_digits (count number : Nat) : '\n' ∉ digits count number := by
  induction count generalizing number with
  | zero => simp [digits]
  | succ count ih =>
    have decimal : ∀ digit < 10, '\n' ≠ Nat.digitChar digit := by decide
    simp [digits, ih, decimal _ (Nat.mod_lt number (by decide : 0 < 10))]

theorem newline_notMem_formatTimestamp (millis : Nat) : '\n' ∉ formatTimestamp millis := by
  simp [formatTimestamp, newline_notMem_digits]

def lineStart : String := "\x7b\"timestamp\":\""

/-- An item with its line behind the timestamp, as text and as JSON fields. -/
structure KnownRecord where
  item : RolloutItem
  text : String
  fields : List (String × Value)
deriving DecidableEq

def sampleSession : SessionMeta where
  id := "0199a213-81c0-7800-8aa1-bbab2a035a53"
  details := .object [("timestamp", .string "2025-10-01T09:30:00.000Z"), ("cwd", .string "/w"),
    ("originator", .string "codex_cli_rs"), ("cli_version", .string "0.1.0"),
    ("source", .string "cli"), ("model_provider", .null), ("base_instructions", .null)]

def sessionRecord : KnownRecord where
  item := sessionMetaItem sampleSession none
  text := "\"type\":\"session_meta\",\"payload\":\x7b" ++
    "\"id\":\"0199a213-81c0-7800-8aa1-bbab2a035a53\"," ++
    "\"timestamp\":\"2025-10-01T09:30:00.000Z\",\"cwd\":\"/w\",\"originator\":\"codex_cli_rs\"," ++
    "\"cli_version\":\"0.1.0\",\"source\":\"cli\",\"model_provider\":null," ++
    "\"base_instructions\":null\x7d\x7d"
  fields := [("type", .string "session_meta"), ("payload", .object (
    ("id", .string sampleSession.id) :: match sampleSession.details with
      | .object fields => fields
      | _ => []))]

def messageFields (role kind text : String) : List (String × Value) :=
  [("type", .string "response_item"), ("payload", .object [
    ("type", .string "message"), ("role", .string role),
    ("content", .array [.object [("type", .string kind), ("text", .string text)]])])]

def askRecord : KnownRecord where
  item := .responseItem (.inputMessage "user" "hi")
  text := "\"type\":\"response_item\",\"payload\":\x7b\"type\":\"message\",\"role\":\"user\"," ++
    "\"content\":[\x7b\"type\":\"input_text\",\"text\":\"hi\"\x7d]\x7d\x7d"
  fields := messageFields "user" "input_text" "hi"

def answerRecord : KnownRecord where
  item := .responseItem (.message none "assistant" [.outputText "done"] none)
  text := "\"type\":\"response_item\",\"payload\":\x7b\"type\":\"message\"," ++
    "\"role\":\"assistant\",\"content\":[\x7b\"type\":\"output_text\",\"text\":\"done\"\x7d]\x7d\x7d"
  fields := messageFields "assistant" "output_text" "done"

def knownRecords : List KnownRecord := [sessionRecord, askRecord, answerRecord]

/-- `serde_json` on the lines of the known records. -/
def sampleCodec : LineCodec where
  encode := fun timestamp item =>
    lineStart ++ String.ofList (formatTimestamp timestamp) ++ "\"," ++
    ((knownRecords.find? fun record => record.item = item).map KnownRecord.text).getD "\x7d"
  fromStr := fun line => (knownRecords.find? fun record =>
      lineStart.toList.isPrefixOf line.toList &&
    String.ofList (line.toList.drop 40) == record.text).map fun record => .object
      (("timestamp", .string (String.ofList ((line.toList.drop 14).take 24))) :: record.fields)
  fromValue
    | .object (_ :: fields) =>
      (knownRecords.find? fun record => record.fields = fields).map KnownRecord.item
    | _ => none
  readBack := id

theorem encode_known {record : KnownRecord} (known : record ∈ knownRecords) (timestamp : Nat) :
    sampleCodec.encode timestamp record.item =
      lineStart ++ String.ofList (formatTimestamp timestamp) ++ "\"," ++ record.text := by
  have found : knownRecords.find? (fun other => other.item = record.item) = some record := by
    revert record
    decide +kernel
  simp [sampleCodec, found]

theorem find_text {record : KnownRecord} (known : record ∈ knownRecords) :
    knownRecords.find? (fun other => record.text == other.text) = some record := by
  revert record
  decide +kernel

theorem fromStr_known {record : KnownRecord} (known : record ∈ knownRecords) (timestamp : Nat) :
    sampleCodec.fromStr (sampleCodec.encode timestamp record.item) = some (.object
      (("timestamp", .string (String.ofList (formatTimestamp timestamp))) :: record.fields)) := by
  have start : lineStart.toList.length = 14 := by simp [lineStart]
  have behind : (lineStart.toList ++ formatTimestamp timestamp ++ "\",".toList).length = 40 := by
    simp [start, length_formatTimestamp]
  rw [encode_known known]
  simp only [sampleCodec, String.toList_append, String.toList_ofList]
  rw [drop_left' behind, append_assoc, append_assoc, drop_left' start,
    take_left' (length_formatTimestamp timestamp)]
  simp only [ isPrefixOf_iff_prefix.mpr (prefix_append lineStart.toList _), Bool.true_and,
    String.ofList_toList, find_text known, Option.map_some]

theorem find_fields {record : KnownRecord} (known : record ∈ knownRecords) :
    knownRecords.find? (fun other => other.fields = record.fields) = some record := by
  revert record
  decide +kernel

theorem readLine_known {record : KnownRecord} (known : record ∈ knownRecords) (timestamp : Nat) :
    readLine sampleCodec (sampleCodec.encode timestamp record.item) = .item record.item := by
  have visible : isBlank (sampleCodec.encode timestamp record.item) = false := by
    rw [encode_known known, isBlank_append, isBlank_append, isBlank_append]
    have start : isBlank lineStart = false := by
      rw [Bool.eq_false_iff, Ne, isBlank_iff]
      exact fun blank => absurd (blank '\x7b' (by simp [lineStart])) (by decide)
    simp [start]
  have kept : ∀ stamp, stripLegacyGhostSnapshotRolloutLine
      (.object (("timestamp", .string stamp) :: record.fields)) =
        (.object (("timestamp", .string stamp) :: record.fields), false) := by
    intro stamp
    simp only [knownRecords, mem_cons, not_mem_nil, or_false] at known
    rcases known with rfl | rfl | rfl <;> rfl
  have read : ∀ stamp, sampleCodec.fromValue
      (.object (("timestamp", .string stamp) :: record.fields)) = some record.item := by
    intro stamp
    simp [sampleCodec, find_fields known]
  rw [readLine, visible]
  simp [fromStr_known known, kept, read]

set_option maxRecDepth 2000 in
theorem known_plain {record : KnownRecord} (known : record ∈ knownRecords) :
    '\n' ∉ record.text.toList ∧ record.text.toList.getLast? = some '\x7d' := by
  simp only [knownRecords, mem_cons, not_mem_nil, or_false] at known
  rcases known with rfl | rfl | rfl
  · simp [sessionRecord]
  · simp [askRecord]
  · simp [answerRecord]

theorem roundTrips_known {record : KnownRecord} (known : record ∈ knownRecords) :
    RoundTrips sampleCodec record.item where
  oneLine := fun timestamp => by
    rw [encode_known known]
    simp [lineStart, newline_notMem_formatTimestamp, (known_plain known).1]
  noReturn := fun timestamp => by
    rw [encode_known known, String.toList_append, getLast?_append, (known_plain known).2]
    simp
  reads := readLine_known known

variable (firstLine : LineOutcome)

/-- Every operation of an attempt succeeds, but for the first item's line. -/
def attemptWith : AttemptPlan where
  openError := none
  gitInfo := none
  metaLine := ⟨1759311000000, .written⟩
  itemLines := fun index => ⟨1759311001000, if index = 0 then firstLine else .written⟩
  flushError := none

def smoothly : CommandPlan := ⟨attemptWith .written, attemptWith .written⟩

theorem cleanAttempt_attemptWith (clean : CleanLine ⟨1759311001000, firstLine⟩) :
    CleanAttempt (attemptWith firstLine) := by
  refine ⟨trivial, fun index => ?_⟩
  by_cases first : index = 0
  · simpa [attemptWith, first] using clean
  · simp [attemptWith, first, CleanLine]

/-- A new session: the question is persisted, the answer fails once before its first byte. -/
def fullDiskRun : List (RolloutCmd × CommandPlan) := [
  (.addItems [askRecord.item], smoothly),
  (.persist, smoothly),
  (.addItems [answerRecord.item], ⟨attemptWith (.writeFails 0 "disk full"), attemptWith .written⟩),
  (.flush, smoothly)]

theorem acknowledgedReadable_full_disk :
    AcknowledgedReadable sampleCodec (some sampleSession) "" fullDiskRun ∧
      (rolloutWriter sampleCodec (startWriter (some sampleSession) "") fullDiskRun).map
        Outcome.ack = [none, some (.ok ()), none, some (.ok ())] := by
  refine ⟨acknowledgedReadable_of_clean _ _ _ _ ?_ ?_ (by decide +kernel) ?_, by rfl⟩
  · have trips : RoundTrips sampleCodec (sessionMetaItem sampleSession none) :=
      @roundTrips_known sessionRecord (by simp [knownRecords])
    simpa [fullDiskRun, gitInfosOf, smoothly, attemptWith] using trips
  · have ask := @roundTrips_known askRecord (by simp [knownRecords])
    have answer := @roundTrips_known answerRecord (by simp [knownRecords])
    simp [fullDiskRun, RolloutCmd.items, ask, answer]
  · have written := cleanAttempt_attemptWith .written trivial
    have failed := cleanAttempt_attemptWith (.writeFails 0 "disk full") rfl
    simp [fullDiskRun, smoothly, CleanCommand, written, failed]

/-- A resumed session: add the question under a fate of its line, then flush. -/
def addThenFlush : List (RolloutCmd × CommandPlan) := [
  (.addItems [askRecord.item], ⟨attemptWith firstLine, attemptWith .written⟩),
  (.flush, smoothly)]

theorem not_acknowledgedReadable {before : String} {firstLine : LineOutcome} (loaded : Loaded)
    (contents : ByteArray) (loads : loadRolloutItems sampleCodec contents = .ok loaded)
    (reached : (rolloutWriter sampleCodec (startWriter none before)
      (addThenFlush firstLine))[1]? =
        some ⟨⟨true, false, [], none, none, contents⟩, some (.ok ())⟩)
    (differs : loaded.items ≠ (loadLines sampleCodec before).items ++ [askRecord.item]) :
    ¬ AcknowledgedReadable sampleCodec none before (addThenFlush firstLine) := by
  intro readable
  obtain ⟨header, isHeader, once⟩ := readable 1 _ reached rfl rfl
  obtain rfl : header = [] := isHeader
  have recorded : [] ++ addedUpTo (addThenFlush firstLine) 1 = [askRecord.item] := rfl
  rw [ReadableOnce, recorded, if_neg (by simp)] at once
  obtain ⟨read, again, items, -⟩ := once
  rw [loads, Except.ok.injEq] at again
  exact differs (again ▸ items)

def askLine : String := sampleCodec.encode 1759311001000 askRecord.item

theorem ask_known : askRecord ∈ knownRecords := by simp [knownRecords]

theorem askLine_last : askLine.toList.getLast? = some '\x7d' := by
  rw [askLine, encode_known ask_known, String.toList_append, getLast?_append,
    (known_plain ask_known).2]
  rfl

/-- A line that is appended to the start of another is lost with it. -/
theorem loads_glued {front : String} (plain : '\n' ∉ front.toList)
    (malformed : sampleCodec.fromStr (front ++ askLine) = none) :
    loadRolloutItems sampleCodec (front ++ askLine ++ "\n").toByteArray = .ok ⟨[], none, 1⟩ := by
  have trips := roundTrips_known ask_known
  have visible : isBlank askLine = false := trips.notBlank _
  have oneLine : '\n' ∉ askLine.toList := trips.oneLine _
  have line := lines_line (front ++ askLine) "" (by simp [plain, oneLine]) (by
    rw [String.toList_append, getLast?_append, askLine_last]
    simp)
  rw [String.append_empty] at line
  rw [loadRolloutItems_toByteArray _ (by simp [isBlank_append, visible]), loadLines, line]
  simp [Loaded.addLine, readLine, isBlank_append, visible, malformed, lines, linesFrom,
    Loaded.empty]

/-- A brace in front of a line, as a torn write leaves it. -/
theorem fromStr_torn : sampleCodec.fromStr ("\x7b" ++ askLine) = none := by
  have other : lineStart.toList.isPrefixOf ("\x7b" ++ askLine).toList = false := by
    rw [askLine, encode_known ask_known]
    simp [lineStart, List.isPrefixOf]
  simp only [sampleCodec, other, Bool.false_and, Option.map_eq_none_iff, find?_eq_none]
  simp

/--
After a torn write the item is lost to a parse error, and after a complete line
whose flush fails it is read twice.
-/
theorem dirty_failures_break_reading :
    ¬ AcknowledgedReadable sampleCodec none "" (addThenFlush (.writeFails 1 "disk full")) ∧
      ¬ AcknowledgedReadable sampleCodec none "" (addThenFlush (.flushFails "disk full")) := by
  have nothing : loadLines sampleCodec "" = .empty := rfl
  refine ⟨?_, ?_⟩
  · have torn : (askLine ++ "\n").toByteArray.extract 0 1 = "\x7b".toByteArray := by
      have braced : lineStart = "\x7b" ++ "\"timestamp\":\"" := by decide +kernel
      rw [askLine, encode_known ask_known, braced]
      simp only [String.append_assoc]
      rw [String.toByteArray_append]
      exact ByteArray.extract_append_eq_left (by decide)
    refine not_acknowledgedReadable ⟨[], none, 1⟩
      ("".toByteArray ++ (askLine ++ "\n").toByteArray.extract 0 1 ++ (askLine ++ "\n").toByteArray)
      ?_ rfl (by simp)
    rw [torn, ← String.toByteArray_append, ← String.toByteArray_append, String.empty_append,
      ← String.append_assoc]
    exact loads_glued (by simp) fromStr_torn
  · refine not_acknowledgedReadable ⟨[askRecord.item, askRecord.item], none, 0⟩
      ("".toByteArray ++ (askLine ++ "\n").toByteArray ++ (askLine ++ "\n").toByteArray)
      ?_ rfl (by simp [nothing, Loaded.empty])
    have trips : ∀ record ∈ [(1759311001000, askRecord.item), (1759311001000, askRecord.item)],
        RoundTrips sampleCodec record.2 := by
      simp [roundTrips_known ask_known]
    have twice := loadLines_append_records sampleCodec (rfl : endsLine "" = true) trips
    have visible := isBlank_recordText sampleCodec trips (by simp)
    rw [← String.toByteArray_append, ← String.toByteArray_append, String.empty_append]
    rw [String.empty_append] at twice
    exact (loadRolloutItems_toByteArray _ visible).trans (congrArg _ twice)

end Codex.Rollout.AcknowledgedWrites
