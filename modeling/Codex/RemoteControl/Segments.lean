import Mathlib.Data.List.MinMax

/-!
# Segmented client messages

`ClientSegmentReassembler` of
`app-server-transport/src/transport/remote_control/segment.rs` and the part of
`WebsocketState` in `websocket.rs` that observes client envelopes.  A message
too large for one envelope arrives in chunks; the reassembler holds one
assembly for each client, and the state remembers for each stream the last
chunked message that was delivered.
-/

namespace Codex.RemoteControl.Segments

/-! ## Envelopes -/

abbrev ClientId := String

abbrev StreamId := String

/-- `ClientEvent`, for messages of a type `μ`. -/
inductive ClientEvent (μ : Type) where
  | clientMessage (msg : μ)
  | clientMessageChunk (segmentId segmentCount messageSizeBytes : Nat) (messageChunkBase64 : String)
  | ack (segmentId : Option Nat)
  | ping
  | clientClosed
deriving DecidableEq

structure ClientEnvelope (μ : Type) where
  event : ClientEvent μ
  clientId : ClientId
  streamId : Option StreamId
  seqId : Option Nat
  cursor : Option String
deriving DecidableEq

/-- `ServerEnvelope`, with the segment id of its event. -/
structure ServerEnvelope where
  clientId : ClientId
  streamId : StreamId
  seqId : Nat
  segmentId : Option Nat
deriving DecidableEq

/--
The codecs of the transport.  `decodeSlice` decodes into a slice of the given
length, so that what it decodes fits and is the whole of the chunk.
-/
structure Codecs (μ : Type) where
  decode : String → Option (List UInt8)
  decodedLenEstimate : Nat → Nat
  decodeSlice : String → Nat → Option (List UInt8)
  decodeSlice_fits : ∀ chunk room bytes, decodeSlice chunk room = some bytes →
      decode chunk = some bytes ∧ bytes.length ≤ room
  fromSlice : List UInt8 → Option μ

/-! ## The reassembler -/

def segmentMaxBytes : Nat := 150 * 1024

def reassembledMaxBytes : Nat := 100 * 1024 * 1024

def segmentCountMax : Nat := 1024

def segmentAssemblyMaxCount : Nat := 128

structure ClientSegmentMetadata where
  seqId : Nat
  segmentCount : Nat
  messageSizeBytes : Nat
deriving DecidableEq

structure ClientSegmentAssembly where
  streamId : StreamId
  metadata : ClientSegmentMetadata
  raw : List UInt8
  nextSegmentId : Nat
  lastChunkSeenAt : Nat
deriving DecidableEq

abbrev Assemblies := List (ClientId × ClientSegmentAssembly)

inductive ClientSegmentObservation (μ : Type) where
  | forward (envelope : ClientEnvelope μ)
  | pending
  | dropped

inductive AssemblyUpdate (μ : Type) where
  | pending
  | ignore
  | drop
  | complete (msg : μ)

variable (assemblies : Assemblies) (client : ClientId) (stream : StreamId)

namespace Assemblies

def remove : Assemblies := assemblies.filter fun entry => entry.1 != client

def insert (assembly : ClientSegmentAssembly) : Assemblies :=
  (client, assembly) :: remove assemblies client

/-- Whether the assembly of the stream is past the chunk. -/
def shouldIgnoreChunk (seqId segmentId : Nat) : Bool :=
  match assemblies.lookup client with
  | some assembly =>
    assembly.streamId == stream && (decide (seqId < assembly.metadata.seqId) ||
        (seqId == assembly.metadata.seqId && decide (segmentId < assembly.nextSegmentId)))
  | none => false

/-- `remove_assembly`, also `invalidate_stream`. -/
def removeAssembly : Assemblies :=
  match assemblies.lookup client with
  | some assembly =>
    if assembly.streamId = stream then remove assemblies client
    else assemblies
  | none => assemblies

/--
The client whose assembly has waited longest.  Among equal times the source
takes whichever its map lists first, and the model the first of the list.
-/
def stalest : Option ClientId :=
  (assemblies.argmin fun entry => entry.2.lastChunkSeenAt).map Prod.fst

/-- `evict_assemblies_if_full`; each round removes an assembly. -/
def evictIfFull : Nat → Assemblies → Assemblies
  | 0, assemblies => assemblies
  | rounds + 1, assemblies =>
    if segmentAssemblyMaxCount ≤ assemblies.length then
      match stalest assemblies with
      | some client => evictIfFull rounds (remove assemblies client)
      | none => assemblies
    else assemblies

/-- The assembly that a chunk belongs to, made anew where there is none. -/
def prepare (metadata : ClientSegmentMetadata) (now : Nat) : Assemblies :=
  let fresh : ClientSegmentAssembly := ⟨stream, metadata, [], 0, now⟩
  match assemblies.lookup client with
  | some assembly =>
    if assembly.streamId ≠ stream then insert assemblies client fresh
    else assemblies
  | none => insert (evictIfFull assemblies.length assemblies) client fresh

end Assemblies

variable (state : WebsocketState) (envelope : ClientEnvelope μ)

section Observing

variable {μ : Type} (codecs : Codecs μ)

/-- The chunk that comes next is appended, and the last one completes the message. -/
def updateAssembly (assembly : ClientSegmentAssembly)
    (metadata : ClientSegmentMetadata) (segmentId : Nat) (chunk : String)
    (now : Nat) : ClientSegmentAssembly × AssemblyUpdate μ :=
  if metadata.seqId < assembly.metadata.seqId then (assembly, .ignore)
  else if assembly.metadata ≠ metadata then (assembly, .drop)
  else if segmentId < assembly.nextSegmentId then (assembly, .pending)
  else if segmentId ≠ assembly.nextSegmentId then (assembly, .drop)
  else
    let assembly := { assembly with lastChunkSeenAt := now }
    let chunkStart := assembly.raw.length
    let chunkEnd := min metadata.messageSizeBytes
      (chunkStart + codecs.decodedLenEstimate chunk.utf8ByteSize)
    match codecs.decodeSlice chunk (chunkEnd - chunkStart) with
    | none => (assembly, .drop)
    | some bytes =>
      let assembly := { assembly with
        raw := assembly.raw ++ bytes
        nextSegmentId := assembly.nextSegmentId + 1 }
      if assembly.nextSegmentId < metadata.segmentCount then (assembly, .pending)
      else if assembly.raw.length ≠ metadata.messageSizeBytes then (assembly, .drop)
      else
        match codecs.fromSlice assembly.raw with
        | some msg => (assembly, .complete msg)
        | none => (assembly, .drop)

def isInvalidChunk (segmentId segmentCount messageSizeBytes : Nat) (chunk : String) : Bool :=
  segmentCount == 0 || decide (segmentCountMax < segmentCount) ||
    decide (segmentCount ≤ segmentId) || messageSizeBytes == 0 ||
    decide (reassembledMaxBytes < messageSizeBytes) || chunk.isEmpty

/-- `observe` of a chunk whose envelope has both ids. -/
def observeChunk (assemblies : Assemblies) (envelope : ClientEnvelope μ)
    (stream : StreamId) (metadata : ClientSegmentMetadata)
    (segmentId : Nat) (chunk : String) (now : Nat) : Assemblies × ClientSegmentObservation μ :=
  let client := envelope.clientId
  if assemblies.shouldIgnoreChunk client stream metadata.seqId segmentId then (assemblies, .dropped)
  else if isInvalidChunk segmentId metadata.segmentCount
      metadata.messageSizeBytes chunk then
    (assemblies.removeAssembly client stream, .dropped)
  else
    let assemblies := assemblies.prepare client stream metadata now
    match assemblies.lookup client with
    | none => (assemblies, .dropped)
    | some assembly =>
      let (assembly, update) := updateAssembly codecs assembly metadata segmentId chunk now
      let assemblies := assemblies.insert client assembly
      match update with
      | .pending => (assemblies, .pending)
      | .ignore => (assemblies, .dropped)
      | .drop => (assemblies.removeAssembly client stream, .dropped)
      | .complete msg =>
        (assemblies.removeAssembly client stream,
          .forward { envelope with event := .clientMessage msg })

/-- `ClientSegmentReassembler::observe`; all but chunks pass through. -/
def observe (assemblies : Assemblies) (envelope : ClientEnvelope μ)
    (now : Nat) : Assemblies × ClientSegmentObservation μ :=
  match envelope.event with
  | .clientMessageChunk segmentId segmentCount messageSizeBytes chunk =>
    match envelope.seqId with
    | none => (assemblies, .dropped)
    | some seqId =>
      match envelope.streamId with
      | none => (assemblies, .dropped)
      | some stream =>
        observeChunk codecs assemblies envelope stream
          ⟨seqId, segmentCount, messageSizeBytes⟩ segmentId chunk now
  | _ => (assemblies, .forward envelope)

/-! ## The websocket state -/

abbrev StreamKey := ClientId × Option StreamId

/-- `WebsocketState`, as far as client envelopes read or change it. -/
structure WebsocketState where
  outboundBuffer : List ServerEnvelope
  subscribeCursor : Option String
  lastCompletedClientChunkSeqIdByStream : List (StreamKey × Nat)
  clientSegmentReassembler : Assemblies

def WebsocketState.initial : WebsocketState := ⟨[], none, [], []⟩

def clientMessageKey : Option (StreamKey × Nat) :=
  match envelope.event, envelope.seqId with
  | .clientMessageChunk _ _ _ _, some seqId => some ((envelope.clientId, envelope.streamId), seqId)
  | _, _ => none

/-- Whether a message of the stream with this id or a later one is done. -/
def WebsocketState.isCompleted : Bool :=
  match clientMessageKey envelope with
  | some (key, seqId) =>
    match state.lastCompletedClientChunkSeqIdByStream.lookup key with
    | some last => decide (seqId ≤ last)
    | none => false
  | none => false

/-- Whether the assembly in progress has had the chunk. -/
def WebsocketState.isReplayed : Bool :=
  match clientMessageKey envelope, envelope.streamId, envelope.event with
  | some (_, seqId), some stream, .clientMessageChunk segmentId _ _ _ =>
    state.clientSegmentReassembler.shouldIgnoreChunk envelope.clientId stream seqId segmentId
  | _, _, _ => false

/-- Repeated chunks are dropped before they reach the assemblies. -/
def WebsocketState.observeClientMessage (state : WebsocketState)
    (envelope : ClientEnvelope μ) (wireSizeBytes now : Nat) :
    WebsocketState × ClientSegmentObservation μ :=
  if state.isCompleted envelope || state.isReplayed envelope then (state, .dropped)
  else if (clientMessageKey envelope).isSome &&
      decide (segmentMaxBytes < wireSizeBytes) then
    match envelope.streamId with
    | some stream =>
      ({ state with
          clientSegmentReassembler := state.clientSegmentReassembler.removeAssembly
              envelope.clientId stream },
        .dropped)
    | none => (state, .dropped)
  else
    let (assemblies, observation) := observe codecs state.clientSegmentReassembler envelope now
    ({ state with clientSegmentReassembler := assemblies }, observation)

/-- Whether an acknowledgement covers a server envelope. -/
def isAcked (ackedSeqId : Nat) (ackedSegmentId : Option Nat) (envelope : ServerEnvelope) : Bool :=
  envelope.clientId == client && envelope.streamId == stream &&
    (decide (envelope.seqId < ackedSeqId) || (envelope.seqId == ackedSeqId &&
        match ackedSegmentId with
        | some acked => decide (envelope.segmentId.getD 0 ≤ acked)
        | none => true))

/-- What the delivery of an envelope leaves, with its acknowledgement. -/
def WebsocketState.recordClientMessageDelivery (key : Option (StreamKey × Nat)) :
    WebsocketState where
  subscribeCursor := envelope.cursor.or state.subscribeCursor
  lastCompletedClientChunkSeqIdByStream :=
    match key with
    | some entry =>
      entry :: state.lastCompletedClientChunkSeqIdByStream.filter fun other => other.1 != entry.1
    | none => state.lastCompletedClientChunkSeqIdByStream
  outboundBuffer :=
    match envelope.event, envelope.seqId, envelope.streamId with
    | .ack segmentId, some ackedSeqId, some stream =>
      state.outboundBuffer.filter fun server =>
        !isAcked envelope.clientId stream ackedSeqId segmentId server
    | _, _, _ => state.outboundBuffer
  clientSegmentReassembler := state.clientSegmentReassembler

/-! ## Runs -/

/-- An envelope with its size on the wire and the time of its arrival. -/
structure Arrival (μ : Type) where
  envelope : ClientEnvelope μ
  wireSizeBytes : Nat
  now : Nat

/-- An envelope that was forwarded, with the one that it was forwarded for. -/
structure Delivery (μ : Type) where
  arrived : ClientEnvelope μ
  forwarded : ClientEnvelope μ

/--
The connection's loop for one envelope: what is forwarded is recorded.  The
invalidation that follows a closed client is left out.
-/
def WebsocketState.receive (state : WebsocketState) (arrival : Arrival μ) :
    WebsocketState × Option (Delivery μ) :=
  let observed := state.observeClientMessage codecs arrival.envelope
    arrival.wireSizeBytes arrival.now
  match observed.2 with
  | .forward envelope =>
    (observed.1.recordClientMessageDelivery envelope (clientMessageKey arrival.envelope),
      some ⟨arrival.envelope, envelope⟩)
  | _ => (observed.1, none)

/-- What is delivered of some arrivals, and the state after them. -/
def WebsocketState.run (state : WebsocketState) :
    List (Arrival μ) → WebsocketState × List (Delivery μ)
  | [] => (state, [])
  | arrival :: rest =>
    let received := state.receive codecs arrival
    let later := received.1.run rest
    (later.1, received.2.toList ++ later.2)

end Observing

end Codex.RemoteControl.Segments
