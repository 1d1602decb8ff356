import Codex.Library.FallibleActions
import Codex.Rollout.Loader

/-!
# The rollout writer

The model of `RolloutWriterState` and `rollout_writer` in
`rollout/src/recorder.rs`: a task that owns the rollout file, queues items and
appends them as lines at its barriers.  An I/O failure closes the file, keeps
what is not known to be written, and is retried once.
-/

namespace Codex.Rollout.Recorder

open Library.FallibleActions Protocol.JsonValue Protocol.Models Loader

/-! ## What the operating system does -/

inductive LineOutcome where
  | written
  | writeFails (appended : Nat) (error : String)
  | flushFails (error : String)
deriving DecidableEq

structure LinePlan where
  timestamp : Nat
  outcome : LineOutcome
deriving DecidableEq

structure AttemptPlan where
  openError : Option String
  gitInfo : Option Value
  metaLine : LinePlan
  itemLines : Nat → LinePlan
  flushError : Option String

structure CommandPlan where
  first : AttemptPlan
  second : AttemptPlan

/-! ## State -/

/-- `SessionMeta`: the thread id, and the other fields as JSON. -/
structure SessionMeta where
  id : String
  details : Value
deriving DecidableEq

variable (session : SessionMeta)

/-- The session meta record, with the git information where there is any. -/
def sessionMetaItem (gitInfo : Option Value) : RolloutItem :=
  .sessionMeta ⟨session.id, match gitInfo with
      | some git => session.details.insert "git" git
      | none => session.details⟩

/--
`RolloutWriterState` and the file.  Of the writer and of the deferred file only
their presence is recorded, since both name the one rollout file.
-/
structure WriterState where
  writerOpen : Bool
  deferredLogFileInfo : Bool
  pendingItems : List RolloutItem
  sessionMeta : Option SessionMeta
  lastLoggedError : Option String
  contents : ByteArray

def WriterState.isDeferred (state : WriterState) : Bool :=
  !state.writerOpen && state.deferredLogFileInfo

variable (contents : ByteArray)

/-- The writer of a new session: no file yet, the session meta pending. -/
def createdWriter : WriterState := ⟨false, true, [], some session, none, contents⟩

def resumedWriter : WriterState := ⟨true, false, [], none, none, contents⟩

def addItems (items : List RolloutItem) (state : WriterState) : WriterState :=
  { state with pendingItems := state.pendingItems ++ items }

def enterRecoveryMode (error : String) (state : WriterState) : WriterState :=
  { state with lastLoggedError := some error, writerOpen := false }

/-- What a successful barrier does to the log of errors. -/
def clearLoggedError (state : WriterState) : WriterState := { state with lastLoggedError := none }

/-! ## One attempt -/

def ensureWriterOpen (openError : Option String) : Action WriterState String := fun state =>
  if state.writerOpen then (state, .ok ())
  else
    match openError with
    | some error => (state, .error error)
    | none => ({ state with writerOpen := true, deferredLogFileInfo := false }, .ok ())

variable (codec : LineCodec)

/-- `JsonlWriter::write_rollout_item`, on the bytes of the file. -/
def writeRolloutItem (plan : LinePlan) (item : RolloutItem) (contents : ByteArray) :
    ByteArray × Except String Unit :=
  let line := (codec.encode plan.timestamp item ++ "\n").toByteArray
  match plan.outcome with
  | .written => (contents ++ line, .ok ())
  | .writeFails appended error => (contents ++ line.extract 0 appended, .error error)
  | .flushFails error => (contents ++ line, .error error)

variable (plan : AttemptPlan)

def writeSessionMetaIfNeeded : Action WriterState String := fun state =>
  match state.sessionMeta with
  | none => (state, .ok ())
  | some session =>
    if state.writerOpen then
      match writeRolloutItem codec plan.metaLine
          (sessionMetaItem session plan.gitInfo) state.contents with
      | (contents, .ok ()) => ({ state with contents := contents, sessionMeta := none }, .ok ())
      | (contents, .error error) => ({ state with contents := contents }, .error error)
    else ({ state with sessionMeta := none }, .ok ())

/-- The loop over the pending items; `written` counts the written ones. -/
def writeItems (codec : LineCodec) (plans : Nat → LinePlan) :
    (written : Nat) → List RolloutItem → ByteArray → ByteArray × Nat × Except String Unit
  | written, [], contents => (contents, written, .ok ())
  | written, item :: rest, contents =>
    match writeRolloutItem codec (plans written) item contents with
    | (contents, .ok ()) => writeItems codec plans (written + 1) rest contents
    | (contents, .error error) => (contents, written, .error error)

def writePendingItemsOnce : Action WriterState String := fun state =>
  if state.writerOpen then
    let result := writeItems codec plan.itemLines 0 state.pendingItems state.contents
    ({ state with
        contents := result.1
        pendingItems := state.pendingItems.drop result.2.1 },
      result.2.2)
  else (state, .error "rollout writer is not open")

def flushWriter (flushError : Option String) : Action WriterState String := fun state =>
  if state.writerOpen then
    match flushError with
    | some error => (state, .error error)
    | none => (state, .ok ())
  else (state, .ok ())

def writePendingOnce : Action WriterState String :=
  andThen (ensureWriterOpen plan.openError) (andThen (writeSessionMetaIfNeeded codec plan)
      (andThen (writePendingItemsOnce codec plan) (flushWriter plan.flushError)))

variable (plan : CommandPlan)

/-! ## Commands -/

def writePendingWithRecovery : Action WriterState String :=
  withRetry (writePendingOnce codec plan.first)
    (writePendingOnce codec plan.second) enterRecoveryMode clearLoggedError

def persist : Action WriterState String := writePendingWithRecovery codec plan

/-- `flush`, and `shutdown`, which does the same. -/
def flush : Action WriterState String := fun state =>
  if state.isDeferred && state.pendingItems.isEmpty then (state, .ok ())
  else writePendingWithRecovery codec plan state

def flushIfMaterialized (state : WriterState) : WriterState :=
  if state.isDeferred then state
  else
    match flush codec plan state with
    | (next, .ok ()) => next
    | (next, .error error) => enterRecoveryMode error next

inductive RolloutCmd where
  | addItems (items : List RolloutItem)
  | persist
  | flush
  | shutdown
deriving DecidableEq

def RolloutCmd.items : RolloutCmd → List RolloutItem
  | .addItems items => items
  | _ => []

/-- What a command leads to: the state after it and its acknowledgement. -/
structure Outcome where
  state : WriterState
  ack : Option (Except String Unit)

variable (command : RolloutCmd)

/-- One round of the loop of `rollout_writer`. -/
def handleCommand (state : WriterState) : Outcome :=
  match command with
  | .addItems items => ⟨flushIfMaterialized codec plan (addItems items state), none⟩
  | .persist =>
    let result := persist codec plan state
    ⟨result.1, some result.2⟩
  | .flush | .shutdown =>
    let result := flush codec plan state
    ⟨result.1, some result.2⟩

/-- Whether the loop ends: a shutdown was acknowledged with success. -/
def stops (outcome : Outcome) : Bool :=
  match command, outcome.ack with
  | .shutdown, some (.ok ()) => true
  | _, _ => false

/-- `rollout_writer`: what each command of a run leads to. -/
def rolloutWriter (codec : LineCodec) : WriterState → List (RolloutCmd × CommandPlan) → List Outcome
  | _, [] => []
  | state, (command, plan) :: rest =>
    let outcome := handleCommand codec plan command state
    outcome ::
      if stops command outcome then []
      else rolloutWriter codec outcome.state rest

end Codex.Rollout.Recorder
