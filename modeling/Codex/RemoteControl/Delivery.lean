import Codex.Library.Base64
import Codex.RemoteControl.Segments

/-!
# Chunked messages are delivered whole and at most once

A message that was reassembled is read from its chunks, each taken once and in
order, whatever arrives between them.  The reassembler keeps for each client an
assembly of the chunks that it has seen (`Kept`); a connection keeps besides
that the last delivered message of a stream bounds the earlier ones
(`Sound`).  Both hold along every run.
-/

namespace Codex.RemoteControl.Delivery

open Library List Segments

variable {μ : Type} {codecs : Codecs μ}

/-! ## Chunks of a message -/

/-- An envelope that carries the chunk of a message at an index. -/
structure IsPart (codecs : Codecs μ) (client : ClientId) (stream : StreamId)
    (metadata : ClientSegmentMetadata) (index : Nat)
    (part : ClientEnvelope μ × List UInt8) : Prop where
  clientId : part.1.clientId = client
  streamId : part.1.streamId = some stream
  seqId : part.1.seqId = some metadata.seqId
  carries : ∃ chunk, part.1.event = .clientMessageChunk index metadata.segmentCount
        metadata.messageSizeBytes chunk ∧
      codecs.decode chunk = some part.2

/-- Observed envelopes, in order, that carry the first chunks of a message. -/
structure Gathers (codecs : Codecs μ) (observed : List (ClientEnvelope μ))
    (client : ClientId) (stream : StreamId)
    (metadata : ClientSegmentMetadata)
    (parts : List (ClientEnvelope μ × List UInt8)) : Prop where
  observed : (parts.map Prod.fst).Sublist observed
  inOrder : ∀ index part, parts[index]? = some part →
    IsPart codecs client stream metadata index part

def bytesOf (parts : List (ClientEnvelope μ × List UInt8)) : List UInt8 := parts.flatMap Prod.snd

/-- An envelope whose message is read from all chunks of one message. -/
def DecodesFrom (codecs : Codecs μ) (observed : List (ClientEnvelope μ))
    (forwarded : ClientEnvelope μ) : Prop :=
  ∃ stream metadata message parts, forwarded.streamId = some stream ∧
      forwarded.seqId = some metadata.seqId ∧
      forwarded.event = .clientMessage message ∧
      Gathers codecs observed forwarded.clientId stream metadata parts ∧
      parts.length = metadata.segmentCount ∧
      (bytesOf parts).length = metadata.messageSizeBytes ∧
      codecs.fromSlice (bytesOf parts) = some message

theorem Gathers.nil (observed : List (ClientEnvelope μ)) (client : ClientId)
    (stream : StreamId) (metadata : ClientSegmentMetadata) :
    Gathers codecs observed client stream metadata [] :=
  ⟨nil_sublist _, fun _ _ listed => by cases listed⟩

variable {parts : List (ClientEnvelope μ × List UInt8)}

section Observed

variable {observed : List (ClientEnvelope μ)}
  {client : ClientId} {forwarded : ClientEnvelope μ} {assembly : ClientSegmentAssembly}
  {assemblies : Assemblies} {seqId : Nat} {metadata : ClientSegmentMetadata} {stream : StreamId}

theorem Gathers.later
    (gathers : Gathers codecs observed client stream metadata parts) (envelope : ClientEnvelope μ) :
    Gathers codecs (observed ++ [envelope]) client stream metadata parts :=
  ⟨gathers.observed.trans (sublist_append_left _ _), gathers.inOrder⟩

theorem Gathers.append {part : ClientEnvelope μ × List UInt8}
    (gathers : Gathers codecs observed client stream metadata parts)
    (next : IsPart codecs client stream metadata parts.length part) :
    Gathers codecs (observed ++ [part.1]) client stream metadata (parts ++ [part]) := by
  refine ⟨?_, ?_⟩
  · rw [map_append]
    exact gathers.observed.append (Sublist.refl _)
  · intro index other listed
    rcases Nat.lt_trichotomy index parts.length with before | same | after
    · rw [getElem?_append_left before] at listed
      exact gathers.inOrder index other listed
    · subst same
      rw [getElem?_concat_length] at listed
      cases listed
      exact next
    · rw [getElem?_eq_none (by simp; omega)] at listed
      cases listed

theorem DecodesFrom.later (decodes : DecodesFrom codecs observed forwarded)
    (envelope : ClientEnvelope μ) : DecodesFrom codecs (observed ++ [envelope]) forwarded := by
  obtain ⟨stream, metadata, message, parts, ofStream, ofSeq, ofEvent, gathers, rest⟩ := decodes
  exact ⟨stream, metadata, message, parts, ofStream, ofSeq, ofEvent, gathers.later envelope, rest⟩

/-! ## Assemblies -/

/-- An assembly that holds the chunks of its message up to the next one. -/
def Holds (codecs : Codecs μ) (observed : List (ClientEnvelope μ))
    (client : ClientId) (assembly : ClientSegmentAssembly) : Prop :=
  ∃ parts, Gathers codecs observed client assembly.streamId assembly.metadata parts ∧
      parts.length = assembly.nextSegmentId ∧
      bytesOf parts = assembly.raw

/-- Every assembly holds chunks of its client. -/
def Kept (codecs : Codecs μ) (observed : List (ClientEnvelope μ))
    (assemblies : Assemblies) : Prop :=
  ∀ client assembly, (client, assembly) ∈ assemblies → Holds codecs observed client assembly

theorem Holds.later (holds : Holds codecs observed client assembly) (envelope : ClientEnvelope μ) :
    Holds codecs (observed ++ [envelope]) client assembly := by
  obtain ⟨parts, gathers, rest⟩ := holds
  exact ⟨parts, gathers.later envelope, rest⟩

theorem Kept.later (kept : Kept codecs observed assemblies) (envelope : ClientEnvelope μ) :
    Kept codecs (observed ++ [envelope]) assemblies :=
  fun client assembly listed => (kept client assembly listed).later envelope

theorem Kept.subset {assemblies fewer : Assemblies}
    (kept : Kept codecs observed assemblies) (subset : fewer ⊆ assemblies) :
    Kept codecs observed fewer :=
  fun client assembly listed => kept client assembly (subset listed)

theorem remove_subset (assemblies : Assemblies) (client : ClientId) :
    assemblies.remove client ⊆ assemblies :=
  filter_sublist.subset

theorem Kept.insert (kept : Kept codecs observed assemblies)
    (holds : Holds codecs observed client assembly) :
    Kept codecs observed (assemblies.insert client assembly) := by
  intro other held listed
  rcases mem_cons.mp listed with same | before
  · cases same
    exact holds
  · exact kept other held (remove_subset _ _ before)

theorem removeAssembly_subset (assemblies : Assemblies) (client : ClientId) (stream : StreamId) :
    assemblies.removeAssembly client stream ⊆ assemblies := by
  unfold Assemblies.removeAssembly
  split
  · split
    · exact remove_subset _ _
    · exact List.Subset.refl _
  · exact List.Subset.refl _

theorem evictIfFull_subset (rounds : Nat) (assemblies : Assemblies) :
    assemblies.evictIfFull rounds ⊆ assemblies := by
  induction rounds generalizing assemblies with
  | zero => exact List.Subset.refl _
  | succ rounds ih =>
    rw [Assemblies.evictIfFull]
    split
    · split
      · exact List.Subset.trans (ih _) (remove_subset _ _)
      · exact List.Subset.refl _
    · exact List.Subset.refl _

theorem mem_of_lookup (found : assemblies.lookup client = some assembly) :
    (client, assembly) ∈ assemblies := by
  obtain ⟨before, after, split, -⟩ := lookup_eq_some_iff.mp found
  rw [split]
  exact mem_append_right _ mem_cons_self

theorem Kept.prepare (kept : Kept codecs observed assemblies) (client : ClientId)
    (stream : StreamId) (metadata : ClientSegmentMetadata) (now : Nat) :
    Kept codecs observed (assemblies.prepare client stream metadata now) := by
  have fresh : Holds codecs observed client ⟨stream, metadata, [], 0, now⟩ :=
    ⟨[], Gathers.nil observed client stream metadata, rfl, rfl⟩
  simp only [Assemblies.prepare]
  split
  · split
    · exact kept.insert fresh
    · exact kept
  · exact (kept.subset (evictIfFull_subset _ _)).insert fresh

theorem streamId_of_prepare {now : Nat}
    (found : (assemblies.prepare client stream metadata now).lookup client = some assembly) :
    assembly.streamId = stream := by
  simp only [Assemblies.prepare] at found
  split at found
  · rename_i before foundBefore
    split at found
    · rw [Assemblies.insert, lookup_cons_self] at found
      cases found
      rfl
    · rename_i sameStream
      rw [foundBefore] at found
      cases found
      exact not_not.mp sameStream
  · rw [Assemblies.insert, lookup_cons_self] at found
    cases found
    rfl

/-! ## One chunk -/

theorem updateAssembly_cases (codecs : Codecs μ)
    (assembly : ClientSegmentAssembly) (metadata : ClientSegmentMetadata)
    (segmentId : Nat) (chunk : String) (now : Nat) :
    (∃ seenAt, (updateAssembly codecs assembly metadata segmentId chunk now).1 =
          { assembly with lastChunkSeenAt := seenAt } ∧
        ∀ message, (updateAssembly codecs assembly metadata segmentId chunk now).2 ≠
            .complete message) ∨
    ∃ bytes, assembly.metadata = metadata ∧ segmentId = assembly.nextSegmentId ∧
        codecs.decode chunk = some bytes ∧
        (updateAssembly codecs assembly metadata segmentId chunk now).1 = { assembly with
            raw := assembly.raw ++ bytes
            nextSegmentId := assembly.nextSegmentId + 1
            lastChunkSeenAt := now } ∧
        ∀ message, (updateAssembly codecs assembly metadata segmentId chunk now).2 =
              .complete message →
            metadata.segmentCount ≤ assembly.nextSegmentId + 1 ∧
              (assembly.raw ++ bytes).length = metadata.messageSizeBytes ∧
              codecs.fromSlice (assembly.raw ++ bytes) = some message := by
  unfold updateAssembly
  split
  · exact .inl ⟨_, rfl, by simp⟩
  split
  · exact .inl ⟨_, rfl, by simp⟩
  rename_i sameMetadata
  split
  · exact .inl ⟨_, rfl, by simp⟩
  split
  · exact .inl ⟨_, rfl, by simp⟩
  rename_i isNext
  dsimp only
  split
  · exact .inl ⟨_, rfl, by simp⟩
  rename_i bytes decoded
  refine .inr ⟨bytes, not_not.mp sameMetadata, not_not.mp isNext,
    (codecs.decodeSlice_fits _ _ _ decoded).1, ?_⟩
  split
  · exact ⟨rfl, by simp⟩
  rename_i noMore
  split
  · exact ⟨rfl, by simp⟩
  rename_i sameSize
  split
  · rename_i message parsed
    refine ⟨rfl, fun other complete => ?_⟩
    cases complete
    exact ⟨Nat.le_of_not_lt noMore, not_not.mp sameSize, parsed⟩
  · exact ⟨rfl, by simp⟩

structure Carries (envelope : ClientEnvelope μ) (stream : StreamId)
    (metadata : ClientSegmentMetadata) (segmentId : Nat)
    (chunk : String) : Prop where
  streamId : envelope.streamId = some stream
  seqId : envelope.seqId = some metadata.seqId
  event : envelope.event = .clientMessageChunk segmentId metadata.segmentCount
      metadata.messageSizeBytes chunk

section Chunk

variable {envelope : ClientEnvelope μ} {stream : StreamId}
  {metadata : ClientSegmentMetadata} {segmentId : Nat} {chunk : String}

theorem updateAssembly_holds {assembly : ClientSegmentAssembly} (now : Nat)
    (carries : Carries envelope stream metadata segmentId chunk)
    (sameStream : assembly.streamId = stream)
    (holds : Holds codecs observed envelope.clientId assembly) :
    Holds codecs (observed ++ [envelope]) envelope.clientId
      (updateAssembly codecs assembly metadata segmentId chunk now).1 := by
  obtain ⟨seenAt, unchanged, -⟩ | ⟨bytes, sameMetadata, isNext, decoded, extended, -⟩ :=
    updateAssembly_cases codecs assembly metadata segmentId chunk now
  · rw [unchanged]
    exact holds.later envelope
  · obtain ⟨parts, gathers, length, bytesOfParts⟩ := holds
    have part : IsPart codecs envelope.clientId assembly.streamId
        assembly.metadata parts.length (envelope, bytes) := by
      rw [length, ← isNext, sameMetadata, sameStream]
      exact ⟨rfl, carries.streamId, carries.seqId, chunk, carries.event, decoded⟩
    rw [extended]
    refine ⟨parts ++ [(envelope, bytes)], gathers.append part, ?_, ?_⟩
    · simp [length]
    · simp [bytesOf, ← bytesOfParts]

theorem decodesFrom_of_complete {assembly : ClientSegmentAssembly} {now : Nat} {message : μ}
    (carries : Carries envelope stream metadata segmentId chunk)
    (within : segmentId < metadata.segmentCount) (sameStream : assembly.streamId = stream)
    (holds : Holds codecs observed envelope.clientId assembly)
    (complete :
      (updateAssembly codecs assembly metadata segmentId chunk now).2 = .complete message) :
    DecodesFrom codecs (observed ++ [envelope])
      { envelope with event := .clientMessage message } := by
  have holdsAfter := updateAssembly_holds now carries sameStream holds
  obtain ⟨_, -, incomplete⟩ | ⟨bytes, sameMetadata, isNext, -, extended, completes⟩ :=
    updateAssembly_cases codecs assembly metadata segmentId chunk now
  · exact absurd complete (incomplete message)
  · obtain ⟨noMore, size, parsed⟩ := completes message complete
    rw [extended] at holdsAfter
    obtain ⟨parts, gathers, length, bytesOfParts⟩ := holdsAfter
    dsimp only at gathers length bytesOfParts
    rw [sameStream, sameMetadata] at gathers
    refine ⟨stream, metadata, message, parts, carries.streamId, carries.seqId,
      rfl, gathers, ?_, ?_, ?_⟩
    · omega
    · rw [bytesOfParts, size]
    · rw [bytesOfParts, parsed]

/--
What a chunk leaves holds chunks, and an envelope that is forwarded for it is
read from all chunks of its message.
-/
theorem observeChunk_spec {assemblies : Assemblies} (now : Nat)
    (carries : Carries envelope stream metadata segmentId chunk)
    (kept : Kept codecs observed assemblies) :
    Kept codecs (observed ++ [envelope])
        (observeChunk codecs assemblies envelope stream metadata segmentId chunk now).1 ∧
      ∀ forwarded, (observeChunk codecs assemblies envelope stream metadata segmentId
            chunk now).2 = .forward forwarded →
          (∃ message, forwarded = { envelope with event := .clientMessage message }) ∧
          DecodesFrom codecs (observed ++ [envelope]) forwarded := by
  have keptLater := kept.later envelope
  unfold observeChunk
  dsimp only
  split
  · exact ⟨keptLater, by simp⟩
  split
  · exact ⟨keptLater.subset (removeAssembly_subset _ _ _), by simp⟩
  rename_i valid
  have within : segmentId < metadata.segmentCount := by
    simp only [isInvalidChunk, Bool.or_eq_true, decide_eq_true_eq, not_or] at valid
    omega
  have prepared := kept.prepare envelope.clientId stream metadata now
  split
  · exact ⟨prepared.later envelope, by simp⟩
  · rename_i assembly found
    have sameStream := streamId_of_prepare found
    have holds := prepared _ _ (mem_of_lookup found)
    have inserted := (prepared.later envelope).insert
      (updateAssembly_holds now carries sameStream holds)
    split
    · exact ⟨inserted, by simp⟩
    · exact ⟨inserted, by simp⟩
    · exact ⟨inserted.subset (removeAssembly_subset _ _ _), by simp⟩
    · rename_i message complete
      refine ⟨inserted.subset (removeAssembly_subset _ _ _), ?_⟩
      intro forwarded isForwarded
      cases isForwarded
      exact ⟨⟨message, rfl⟩, decodesFrom_of_complete carries within sameStream holds complete⟩

end Chunk

/-! ## One envelope -/

variable (envelope : ClientEnvelope μ)

def isChunk : Bool :=
  match envelope.event with
  | .clientMessageChunk _ _ _ _ => true
  | _ => false

def ForwardedFor (codecs : Codecs μ) (observed : List (ClientEnvelope μ))
    (envelope forwarded : ClientEnvelope μ) : Prop :=
  (∃ message, forwarded = { envelope with event := .clientMessage message }) ∧
    DecodesFrom codecs observed forwarded

theorem observe_spec (now : Nat) (kept : Kept codecs observed assemblies) :
    Kept codecs (observed ++ [envelope]) (observe codecs assemblies envelope now).1 ∧ ∀ forwarded,
        (observe codecs assemblies envelope now).2 = .forward forwarded →
        isChunk envelope = true →
          ForwardedFor codecs (observed ++ [envelope]) envelope forwarded := by
  have keptLater := kept.later envelope
  unfold observe
  split
  · rename_i segmentId segmentCount messageSizeBytes chunk isEvent
    split
    · exact ⟨keptLater, by simp⟩
    · rename_i seqId isSeq
      split
      · exact ⟨keptLater, by simp⟩
      · rename_i stream isStream
        have carries : Carries envelope stream
            ⟨seqId, segmentCount, messageSizeBytes⟩ segmentId chunk :=
          ⟨isStream, isSeq, isEvent⟩
        obtain ⟨keptAfter, forwards⟩ := observeChunk_spec now carries kept
        exact ⟨keptAfter, fun forwarded isForwarded _ => forwards forwarded isForwarded⟩
  · rename_i noChunk
    refine ⟨keptLater, fun forwarded _ chunk => ?_⟩
    unfold isChunk at chunk
    split at chunk
    · rename_i isEvent
      exact absurd isEvent (noChunk _ _ _ _)
    · cases chunk

open WebsocketState

/--
An observation keeps the map of delivered messages, and a message that is done
is not forwarded again.
-/
theorem observeClientMessage_spec {state : WebsocketState} (wireSizeBytes now : Nat)
    (kept : Kept codecs observed state.clientSegmentReassembler) :
    (state.observeClientMessage codecs envelope wireSizeBytes
        now).1.lastCompletedClientChunkSeqIdByStream =
        state.lastCompletedClientChunkSeqIdByStream ∧
      Kept codecs (observed ++ [envelope]) (state.observeClientMessage codecs envelope wireSizeBytes
          now).1.clientSegmentReassembler ∧
      ∀ forwarded, (state.observeClientMessage codecs envelope wireSizeBytes now).2 =
            .forward forwarded →
          state.isCompleted envelope = false ∧ (isChunk envelope = true →
              ForwardedFor codecs (observed ++ [envelope]) envelope forwarded) := by
  have keptLater := kept.later envelope
  unfold observeClientMessage
  split
  · exact ⟨rfl, keptLater, by simp⟩
  rename_i isNew
  split
  · split
    · exact ⟨rfl, keptLater.subset (removeAssembly_subset _ _ _), by simp⟩
    · exact ⟨rfl, keptLater, by simp⟩
  · obtain ⟨keptAfter, forwards⟩ := observe_spec envelope now kept
    refine ⟨rfl, keptAfter, fun forwarded isForwarded => ⟨?_, ?_⟩⟩
    · rw [Bool.not_eq_true, Bool.or_eq_false_iff] at isNew
      exact isNew.1
    · exact forwards forwarded isForwarded

/-! ## Delivered messages of a stream -/

def chunkedSeqId? (client : ClientId) (stream : StreamId)
    (delivery : Delivery μ) : Option Nat :=
  if isChunk delivery.arrived && delivery.forwarded.clientId == client &&
      delivery.forwarded.streamId == some stream then
    delivery.forwarded.seqId
  else none

/-- The sequence ids of the chunked messages that a stream was delivered. -/
def chunkedSeqIds (client : ClientId) (stream : StreamId)
    (deliveries : List (Delivery μ)) : List Nat :=
  deliveries.filterMap (chunkedSeqId? client stream)

variable (state : WebsocketState)

def lastCompleted (client : ClientId) (stream : StreamId) : Option Nat :=
  state.lastCompletedClientChunkSeqIdByStream.lookup (client, some stream)

/--
What holds after some envelopes were observed: the assemblies hold chunks of
them, chunked messages are read from them, and the ids that a stream was
delivered increase up to the last one.
-/
structure Sound (codecs : Codecs μ) (observed : List (ClientEnvelope μ))
    (deliveries : List (Delivery μ)) (state : WebsocketState) : Prop where
  kept : Kept codecs observed state.clientSegmentReassembler
  whole : ∀ delivery ∈ deliveries, isChunk delivery.arrived = true →
    DecodesFrom codecs observed delivery.forwarded
  increasing : ∀ client stream, (chunkedSeqIds client stream deliveries).Pairwise (· < ·)
  bounded : ∀ client stream, ∀ seqId ∈ chunkedSeqIds client stream deliveries,
    ∃ last, lastCompleted state client stream = some last ∧ seqId ≤ last

theorem sound_initial (codecs : Codecs μ) : Sound codecs [] [] initial where
  kept _ _ listed := by cases listed
  whole _ listed := by cases listed
  increasing _ _ := Pairwise.nil
  bounded _ _ _ listed := by cases listed

theorem lookup_record {key other : StreamKey} (seqId : Nat)
    (completed : List (StreamKey × Nat)) (differs : other ≠ key) :
    ((key, seqId) :: completed.filter fun entry => entry.1 != key).lookup other =
      completed.lookup other := by
  rw [lookup_cons, beq_false_of_ne differs]
  induction completed with
  | nil => rfl
  | cons entry completed ih =>
    obtain ⟨held, last⟩ := entry
    by_cases same : held = key
    · subst same
      simp only [filter_cons, bne_self_eq_false, Bool.false_eq_true,
        if_false, lookup_cons, beq_false_of_ne differs]
      exact ih
    · simp only [filter_cons, bne_iff_ne.mpr same, if_true, lookup_cons]
      split
      · rfl
      · exact ih

theorem lastCompleted_record (forwarded : ClientEnvelope μ) (ofClient client : ClientId)
    (ofStream stream : StreamId) (seqId : Nat) :
    lastCompleted (state.recordClientMessageDelivery forwarded
        (some ((ofClient, some ofStream), seqId))) client stream =
      if ofClient = client ∧ ofStream = stream then some seqId
      else lastCompleted state client stream := by
  split
  · rename_i same
    rw [same.1, same.2]
    exact lookup_cons_self
  · rename_i different
    refine lookup_record _ _ fun equal => different ?_
    cases equal
    exact ⟨rfl, rfl⟩

variable {envelope : ClientEnvelope μ}

theorem clientMessageKey_of_not_isChunk (noChunk : isChunk envelope = false) :
    clientMessageKey envelope = none := by
  unfold clientMessageKey
  split
  · rename_i isEvent _
    simp [isChunk, isEvent] at noChunk
  · rfl

theorem clientMessageKey_of_isChunk (chunk : isChunk envelope = true)
    (isStream : envelope.streamId = some stream) (isSeq : envelope.seqId = some seqId) :
    clientMessageKey envelope = some ((envelope.clientId, some stream), seqId) := by
  unfold isChunk at chunk
  split at chunk
  · rename_i isEvent
    simp [clientMessageKey, isEvent, isSeq, isStream]
  · cases chunk

theorem chunkedSeqIds_concat (deliveries : List (Delivery μ))
    {ofStream : StreamId} (chunk : isChunk envelope = true)
    (isStream : forwarded.streamId = some ofStream)
    (isSeq : forwarded.seqId = some seqId) (client : ClientId) (stream : StreamId) :
    chunkedSeqIds client stream (deliveries ++ [⟨envelope, forwarded⟩]) =
      chunkedSeqIds client stream deliveries ++
        if forwarded.clientId = client ∧ ofStream = stream then [seqId]
        else [] := by
  simp only [chunkedSeqIds, filterMap_append, filterMap_cons,
    filterMap_nil, chunkedSeqId?, chunk, isStream, isSeq,
    Bool.true_and, Bool.and_eq_true, beq_iff_eq, Option.some.injEq]
  by_cases same : forwarded.clientId = client ∧ ofStream = stream
  · simp only [if_pos same]
  · simp only [if_neg same]

/-! ## Runs -/

variable {deliveries : List (Delivery μ)} {state next : WebsocketState}
  (sound : Sound codecs observed deliveries state)
include sound

/-- An envelope that delivers no chunked message. -/
theorem Sound.quiet (envelope : ClientEnvelope μ) {delivered : List (Delivery μ)}
    (kept : Kept codecs (observed ++ [envelope]) next.clientSegmentReassembler)
    (sameCompleted : next.lastCompletedClientChunkSeqIdByStream =
      state.lastCompletedClientChunkSeqIdByStream)
    (noChunk : ∀ delivery ∈ delivered, isChunk delivery.arrived = false) :
    Sound codecs (observed ++ [envelope]) (deliveries ++ delivered) next := by
  have sameIds : ∀ client stream, chunkedSeqIds client stream (deliveries ++ delivered) =
        chunkedSeqIds client stream deliveries := by
    intro client stream
    have none : chunkedSeqIds client stream delivered = [] :=
      filterMap_eq_nil_iff.mpr fun delivery listed => by
        simp [chunkedSeqId?, noChunk delivery listed]
    rw [chunkedSeqIds, filterMap_append]
    exact (congrArg _ none).trans (append_nil _)
  refine ⟨kept, ?_, ?_, ?_⟩
  · intro delivery listed chunk
    rcases mem_append.mp listed with before | now
    · exact (sound.whole delivery before chunk).later envelope
    · rw [noChunk delivery now] at chunk
      cases chunk
  · intro client stream
    rw [sameIds]
    exact sound.increasing client stream
  · intro client stream
    rw [sameIds, lastCompleted, sameCompleted]
    exact sound.bounded client stream

theorem Sound.delivers (kept : Kept codecs (observed ++ [envelope]) next.clientSegmentReassembler)
    (sameCompleted : next.lastCompletedClientChunkSeqIdByStream =
      state.lastCompletedClientChunkSeqIdByStream)
    (chunk : isChunk envelope = true) (isNew : state.isCompleted envelope = false)
    (forwards : ForwardedFor codecs (observed ++ [envelope]) envelope forwarded) :
    Sound codecs (observed ++ [envelope]) (deliveries ++ [⟨envelope, forwarded⟩])
      (next.recordClientMessageDelivery forwarded (clientMessageKey envelope)) := by
  obtain ⟨⟨message, isForwarded⟩, decodes⟩ := forwards
  obtain ⟨ofStream, metadata, -, -, isStream, isSeq, -⟩ := id decodes
  have isClient : forwarded.clientId = envelope.clientId := by rw [isForwarded]
  have isKey : clientMessageKey envelope =
      some ((envelope.clientId, some ofStream), metadata.seqId) := by
    rw [isForwarded] at isStream isSeq
    exact clientMessageKey_of_isChunk chunk isStream isSeq
  have ids := chunkedSeqIds_concat deliveries chunk isStream isSeq
  -- Only the message's own stream has a new id, which passes its last one.
  have passes : ∀ seqId ∈ chunkedSeqIds envelope.clientId ofStream deliveries,
      seqId < metadata.seqId := by
    intro seqId listed
    obtain ⟨last, isLast, atMost⟩ := sound.bounded _ _ seqId listed
    unfold lastCompleted at isLast
    have later : last < metadata.seqId := by simpa [isCompleted, isKey, isLast] using isNew
    exact atMost.trans_lt later
  refine ⟨kept, ?_, ?_, ?_⟩
  · intro delivery listed isChunked
    rcases mem_append.mp listed with before | now
    · exact (sound.whole delivery before isChunked).later envelope
    · cases mem_singleton.mp now
      exact decodes
  · intro client stream
    rw [ids, isClient]
    split
    · rename_i same
      rw [← same.1, ← same.2, pairwise_append]
      refine ⟨sound.increasing _ _, pairwise_singleton _ _, ?_⟩
      intro seqId listed new isLast
      rw [mem_singleton.mp isLast]
      exact passes seqId listed
    · rw [append_nil]
      exact sound.increasing client stream
  · intro client stream seqId listed
    rw [ids, isClient] at listed
    rw [isKey, lastCompleted_record]
    split
    · rename_i same
      rw [if_pos same, ← same.1, ← same.2] at listed
      refine ⟨metadata.seqId, rfl, ?_⟩
      rcases mem_append.mp listed with before | now
      · exact (passes seqId before).le
      · exact (mem_singleton.mp now).le
    · rename_i different
      rw [if_neg different, append_nil] at listed
      rw [lastCompleted, sameCompleted]
      exact sound.bounded client stream seqId listed

theorem Sound.receive (arrival : Arrival μ) : Sound codecs (observed ++ [arrival.envelope])
      (deliveries ++ (state.receive codecs arrival).2.toList)
      (state.receive codecs arrival).1 := by
  obtain ⟨sameCompleted, kept, forwards⟩ := observeClientMessage_spec
    arrival.envelope arrival.wireSizeBytes arrival.now sound.kept
  unfold WebsocketState.receive
  dsimp only
  split
  · rename_i forwarded isForwarded
    obtain ⟨isNew, whole⟩ := forwards forwarded isForwarded
    cases chunk : isChunk arrival.envelope with
    | true => exact sound.delivers kept sameCompleted chunk isNew (whole chunk)
    | false =>
      refine sound.quiet arrival.envelope kept ?_ ?_
      · rw [clientMessageKey_of_not_isChunk chunk]
        exact sameCompleted
      · intro delivery listed
        cases Option.mem_toList.mp listed
        exact chunk
  · refine sound.quiet arrival.envelope kept sameCompleted ?_
    intro delivery listed
    cases listed

theorem Sound.run (arrivals : List (Arrival μ)) :
    Sound codecs (observed ++ arrivals.map Arrival.envelope)
      (deliveries ++ (state.run codecs arrivals).2)
      (state.run codecs arrivals).1 := by
  induction arrivals generalizing observed deliveries state with
  | nil => simpa [run] using sound
  | cons arrival arrivals ih =>
    have later := ih (sound.receive arrival)
    simpa [run, append_assoc] using later

end Observed

/-- What a new connection delivers of some arrivals. -/
def deliveriesOf (codecs : Codecs μ) (arrivals : List (Arrival μ)) : List (Delivery μ) :=
  (WebsocketState.initial.run codecs arrivals).2

/--
Every chunked message that a connection forwards is read from the chunks of one
message, all of them, each once and in order; and the ids of the chunked
messages that a stream is forwarded increase.
-/
theorem chunked_messages_whole_and_increasing (codecs : Codecs μ) (arrivals : List (Arrival μ)) :
    (∀ delivery ∈ deliveriesOf codecs arrivals,
      isChunk delivery.arrived = true → DecodesFrom codecs (arrivals.map Arrival.envelope)
          delivery.forwarded) ∧
      ∀ client stream, (chunkedSeqIds client stream
          (deliveriesOf codecs arrivals)).Pairwise (· < ·) := by
  have sound := (sound_initial codecs).run arrivals
  simp only [nil_append] at sound
  exact ⟨sound.whole, sound.increasing⟩

/-! ## A run with a duplicate and a late replay -/

def methodStart : List UInt8 := "\x7b\"method\":\"".toByteArray.data.toList

def methodEnd : List UInt8 := "\"\x7d".toByteArray.data.toList

/-- The method of a notification without parameters. -/
def readNotification (bytes : List UInt8) : Option (List UInt8) :=
  let method := (bytes.drop methodStart.length).take
    (bytes.length - methodStart.length - methodEnd.length)
  if bytes == methodStart ++ method ++ methodEnd && method.all fun byte => 97 ≤ byte.toNat then
    some method
  else none

/-- Base64 chunks of notifications. -/
def notificationCodecs : Codecs (List UInt8) where
  decode chunk := Base64.decode chunk.toList
  decodedLenEstimate length := (length + 3) / 4 * 3
  decodeSlice chunk room := (Base64.decode chunk.toList).filter (·.length ≤ room)
  decodeSlice_fits chunk room bytes decoded := by
    simpa [Option.filter_eq_some_iff] using decoded
  fromSlice := readNotification

/-- A chunk of a message of 24 bytes in two chunks. -/
def chunkArrival (seqId segmentId : Nat) (chunk : String) : Arrival (List UInt8) :=
  ⟨⟨.clientMessageChunk segmentId 2 24 chunk, "client", some "stream", some seqId, none⟩, 100, 0⟩

/-- The notification `initialized` with its first chunk twice, once more, and with another id. -/
def initializedArrivals : List (Arrival (List UInt8)) :=
  [chunkArrival 1 0 "eyJtZXRob2QiOiI=", chunkArrival 1 0 "eyJtZXRob2QiOiI=",
    chunkArrival 1 1 "aW5pdGlhbGl6ZWQifQ==", chunkArrival 1 0 "eyJtZXRob2QiOiI=",
    chunkArrival 1 1 "aW5pdGlhbGl6ZWQifQ==", chunkArrival 2 0 "eyJtZXRob2QiOiI=",
    chunkArrival 2 1 "aW5pdGlhbGl6ZWQifQ=="]

theorem initialized_delivered_once_per_id :
    chunkedSeqIds "client" "stream" (deliveriesOf notificationCodecs initializedArrivals) = [1, 2] ∧
      ∀ delivery ∈ deliveriesOf notificationCodecs initializedArrivals,
        isChunk delivery.arrived = true → DecodesFrom notificationCodecs
          (initializedArrivals.map Arrival.envelope) delivery.forwarded :=
  ⟨by decide +kernel,
    (chunked_messages_whole_and_increasing notificationCodecs initializedArrivals).1⟩

end Codex.RemoteControl.Delivery
