import Codex.Protocol.Models
import Codex.Rust.Lines

/-!
# Loading a rollout file

The model of `RolloutRecorder::load_rollout_items` in
`rollout/src/recorder.rs`.  The file is read as UTF-8 text and each line that
is not blank is parsed on its own; a line that is not a record is counted and
skipped.
-/

namespace Codex.Rollout.Loader

open Protocol.JsonValue Protocol.Models Rust.Lines List

/--
What serde does with a line.  `encode` is the text of `RolloutLineRef` for a
time in milliseconds, `fromStr` and `fromValue` parse a line to JSON and JSON
to the item of a `RolloutLine`.  `readBack` is an item without the fields that
are not serialized.
-/
structure LineCodec where
  encode : (timestamp : Nat) → RolloutItem → String
  fromStr : String → Option Value
  fromValue : Value → Option RolloutItem
  readBack : RolloutItem → RolloutItem

variable (value : Value)

/-! ## Legacy records -/

def isLegacyGhostSnapshotResponseItem : Bool := value.getStr "type" == some "ghost_snapshot"

/-- The replacement history of a compaction without ghost snapshots. -/
def retainReplacementHistory : Value :=
  match value.get "payload" with
  | some payload =>
    match payload.get "replacement_history" with
    | some (.array elements) =>
      value.insert "payload" (payload.insert "replacement_history"
          (.array (elements.filter fun element => !isLegacyGhostSnapshotResponseItem element)))
    | _ => value
  | none => value

/--
`strip_legacy_ghost_snapshot_rollout_line`: the value after the call, and
whether the whole line is skipped.
-/
def stripLegacyGhostSnapshotRolloutLine : Value × Bool :=
  if value.getStr "type" = some "response_item" then
    (value, (value.get "payload").any isLegacyGhostSnapshotResponseItem)
  else if value.getStr "type" = some "compacted" then (retainReplacementHistory value, false)
  else (value, false)

/-! ## Loading -/

/-- What a load has read so far. -/
structure Loaded where
  items : List RolloutItem
  threadId : Option String
  parseErrors : Nat
deriving DecidableEq

def Loaded.empty : Loaded := ⟨[], none, 0⟩

inductive LineRead where
  | skipped
  | malformed
  | item (item : RolloutItem)
deriving DecidableEq

variable (codec : LineCodec)

/-- One round of the loop, up to the record of the line. -/
def readLine (line : String) : LineRead :=
  if isBlank line then .skipped
  else
    match codec.fromStr line with
    | none => .malformed
    | some value =>
      let stripped := stripLegacyGhostSnapshotRolloutLine value
      if stripped.2 then .skipped
      else
        match codec.fromValue stripped.1 with
        | none => .malformed
        | some item => .item item

def sessionMetaId : RolloutItem → Option String
  | .sessionMeta line => some line.id
  | _ => none

variable (loaded : Loaded) (items : List RolloutItem) (item : RolloutItem)

namespace Loaded

def push : Loaded where
  items := loaded.items ++ [item]
  threadId := loaded.threadId.or (sessionMetaId item)
  parseErrors := loaded.parseErrors

/-- The rest of a round of the loop. -/
def addLine (codec : LineCodec) (loaded : Loaded) (line : String) : Loaded :=
  match readLine codec line with
  | .skipped => loaded
  | .malformed => { loaded with parseErrors := loaded.parseErrors + 1 }
  | .item item => loaded.push item

def pushAll : Loaded := items.foldl push loaded

theorem pushAll_cons (rest : List RolloutItem) :
    loaded.pushAll (item :: rest) = (loaded.push item).pushAll rest :=
  rfl

theorem items_pushAll : (loaded.pushAll items).items = loaded.items ++ items := by
  induction items generalizing loaded with
  | nil => simp [pushAll]
  | cons item rest ih => rw [pushAll_cons, ih, push, append_assoc, singleton_append]

theorem parseErrors_pushAll : (loaded.pushAll items).parseErrors = loaded.parseErrors := by
  induction items generalizing loaded with
  | nil => rfl
  | cons item rest ih => rw [pushAll_cons, ih, push]

end Loaded

def loadLines (text : String) : Loaded := (lines text).foldl (Loaded.addLine codec) .empty

/-- `load_rollout_items` on the bytes of the file. -/
def loadRolloutItems (contents : ByteArray) : Except String Loaded :=
  match String.fromUTF8? contents with
  | none => .error "stream did not contain valid UTF-8"
  | some text =>
    if isBlank text then .error "empty session file"
    else .ok (loadLines codec text)

theorem fromUTF8?_toByteArray (text : String) : String.fromUTF8? text.toByteArray = some text := by
  unfold String.fromUTF8?
  rw [dif_pos text.isValidUTF8]
  rfl

variable (codec : LineCodec)

theorem loadRolloutItems_toByteArray {text : String} (written : isBlank text = false) :
    loadRolloutItems codec text.toByteArray = .ok (loadLines codec text) := by
  simp [loadRolloutItems, fromUTF8?_toByteArray, written]

/-! ## Records that are read back -/

/--
The line of an item is one line, and reading it gives the item back.  JSON
text has no raw line breaks and ends in a closing brace, and the records that
are written today are none of the legacy ones.
-/
structure RoundTrips (codec : LineCodec) (item : RolloutItem) : Prop where
  oneLine : ∀ timestamp, '\n' ∉ (codec.encode timestamp item).toList
  noReturn : ∀ timestamp, (codec.encode timestamp item).toList.getLast? ≠ some '\r'
  reads : ∀ timestamp, readLine codec (codec.encode timestamp item) = .item (codec.readBack item)

theorem RoundTrips.notBlank {codec : LineCodec} {item : RolloutItem}
    (trips : RoundTrips codec item) (timestamp : Nat) :
    isBlank (codec.encode timestamp item) = false := by
  have reads := trips.reads timestamp
  cases blank : isBlank (codec.encode timestamp item) with
  | false => rfl
  | true => simp [readLine, blank] at reads

/-- A record of the file: the time it was written and its item. -/
abbrev Record := Nat × RolloutItem

def recordText (codec : LineCodec) (records : List Record) : String :=
  String.join (records.map fun record => codec.encode record.1 record.2 ++ "\n")

theorem recordText_cons (record : Record) (rest : List Record) : recordText codec (record :: rest) =
      codec.encode record.1 record.2 ++ "\n" ++ recordText codec rest := by
  simp [recordText, String.join_cons]

theorem recordText_concat (records : List Record) (record : Record) :
    recordText codec (records ++ [record]) = recordText codec records ++
        (codec.encode record.1 record.2 ++ "\n") := by
  induction records with
  | nil => simp [recordText]
  | cons first rest ih =>
    rw [cons_append, recordText_cons, ih, recordText_cons,
      String.append_assoc, String.append_assoc, String.append_assoc]

variable {records : List Record}

theorem foldl_addLine_records (loaded : Loaded)
    (trips : ∀ record ∈ records, RoundTrips codec record.2) :
    (lines (recordText codec records)).foldl (Loaded.addLine codec) loaded = loaded.pushAll
        (records.map fun record => codec.readBack record.2) := by
  induction records generalizing loaded with
  | nil => rfl
  | cons record rest ih =>
    rw [forall_mem_cons] at trips
    have line := lines_line (codec.encode record.1 record.2)
      (recordText codec rest) (trips.1.oneLine _) (trips.1.noReturn _)
    rw [recordText_cons, line, foldl_cons, ih _ trips.2,
      map_cons, Loaded.pushAll_cons, Loaded.addLine,
      trips.1.reads]

theorem loadLines_append_records {before : String} (ends : endsLine before = true)
    (trips : ∀ record ∈ records, RoundTrips codec record.2) :
    loadLines codec (before ++ recordText codec records) = (loadLines codec before).pushAll
        (records.map fun record => codec.readBack record.2) := by
  rw [loadLines, lines_append _ ends, foldl_append]
  exact foldl_addLine_records codec _ trips

theorem isBlank_recordText
    (trips : ∀ record ∈ records, RoundTrips codec record.2) (written : records ≠ []) :
    isBlank (recordText codec records) = false := by
  cases records with
  | nil => exact absurd rfl written
  | cons record rest =>
    rw [forall_mem_cons] at trips
    rw [recordText_cons, isBlank_append, isBlank_append, trips.1.notBlank]
    rfl

end Codex.Rollout.Loader
