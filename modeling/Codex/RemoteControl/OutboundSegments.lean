import Codex.Library.Base64
import Codex.RemoteControl.Segments

/-!
# Segmented server messages

`split_server_envelope_for_transport` of
`app-server-transport/src/transport/remote_control/segment.rs`: a server
message too large for one envelope is sent in chunks.  Their number is
searched for; each attempt takes smaller chunks than the one before.
-/

namespace Codex.RemoteControl.OutboundSegments

open Library List Segments

inductive PongStatus where
  | active
  | unknown

/-- `ServerEvent`, for messages of a type `μ`. -/
inductive ServerEvent (μ : Type) where
  | serverMessage (msg : μ)
  | serverMessageChunk (segmentId segmentCount messageSizeBytes : Nat) (messageChunkBase64 : String)
  | ack
  | pong (status : PongStatus)

structure ServerEnvelope (μ : Type) where
  event : ServerEvent μ
  clientId : ClientId
  streamId : StreamId
  seqId : Nat

/-- `serde_json`, which may fail. -/
structure Encoders (μ : Type) where
  toVec : μ → Except String (List UInt8)
  serializedLen : ServerEnvelope μ → Except String Nat

def segmentTargetBytes : Nat := 100 * 1024

def divCeil (left right : Nat) : Nat := (left + right - 1) / right

/-- `chunks` of a slice, each with its index. -/
def enumeratedChunks (chunkSize : Nat) (raw : List UInt8) : List (Nat × List UInt8) :=
  (List.range (divCeil raw.length chunkSize)).map fun index =>
    (index, (raw.drop (index * chunkSize)).take chunkSize)

/-! ## The search for a number of segments -/

theorem divCeil_le_iff {left right bound : Nat} (positive : 0 < right) :
    divCeil left right ≤ bound ↔ left ≤ bound * right := by
  rw [divCeil, Nat.div_le_iff_le_mul positive]
  omega

def chunkSizeFor (size segmentCount : Nat) : Nat := max 1 (divCeil size segmentCount)

/-- One segment more than the chunks of a size need does not need larger ones. -/
theorem chunkSizeFor_le {size chunkSize : Nat} (positive : 0 < chunkSize) :
    chunkSizeFor size (divCeil size chunkSize + 1) ≤ chunkSize := by
  have enough : size ≤ divCeil size chunkSize * chunkSize :=
    (divCeil_le_iff positive).mp (Nat.le_refl _)
  refine Nat.max_le.mpr ⟨positive, (divCeil_le_iff (Nat.succ_pos _)).mpr ?_⟩
  exact Nat.le_trans enough (Nat.mul_comm _ _ ▸ Nat.mul_le_mul_left _ (Nat.le_succ _))

theorem chunkSizeFor_self (size : Nat) : chunkSizeFor size size = 1 := by
  have small : divCeil size size ≤ 1 := by
    rcases Nat.eq_zero_or_pos size with rfl | positive
    · decide
    · rw [divCeil_le_iff positive, Nat.one_mul]
  exact Nat.max_eq_left small

section Split

variable {μ : Type} (encoders : Encoders μ) (envelope : ServerEnvelope μ)

def buildChunkEnvelope (segmentId segmentCount messageSizeBytes : Nat) (chunk : List UInt8) :
    Except String (ServerEnvelope μ) :=
  if segmentCountMax < segmentCount then .error "remote-control segment count exceeds maximum"
  else
    .ok { envelope with
      event := .serverMessageChunk segmentId segmentCount messageSizeBytes
        (String.ofList (Base64.encode chunk)) }

def serializedChunkLen (segmentId segmentCount messageSizeBytes : Nat) (chunk : List UInt8) :
    Except String Nat :=
  (buildChunkEnvelope envelope segmentId segmentCount messageSizeBytes chunk).bind
    encoders.serializedLen

variable (raw : List UInt8)

def segmentsFit (segmentCount chunkSize : Nat) : Bool :=
  (enumeratedChunks chunkSize raw).all fun piece =>
    match serializedChunkLen encoders envelope piece.1 segmentCount raw.length piece.2 with
    | .ok size => size ≤ segmentMaxBytes
    | .error _ => false

/-- The loop, from a number of segments. -/
def searchSegments (segmentCount : Nat) : Except String (List (ServerEnvelope μ)) :=
  let chunkSize := chunkSizeFor raw.length segmentCount
  let segmentCount' := divCeil raw.length chunkSize
  if segmentsFit encoders envelope raw segmentCount' chunkSize then
    (enumeratedChunks chunkSize raw).mapM fun piece =>
      buildChunkEnvelope envelope piece.1 segmentCount' raw.length piece.2
  else if last : chunkSize = 1 then .ok []
  else
    searchSegments (if chunkSizeFor raw.length (segmentCount' + 1) = chunkSize then raw.length
      else segmentCount' + 1)
termination_by chunkSizeFor raw.length segmentCount
decreasing_by
  have positive : 0 < chunkSizeFor raw.length segmentCount := Nat.le_max_left 1 _
  have smaller := @chunkSizeFor_le raw.length _ positive
  split
  · rw [chunkSizeFor_self]
    omega
  · omega

def splitServerEnvelopeForTransport : Except String (List (ServerEnvelope μ)) :=
  match envelope.event with
  | .serverMessage msg => do
    if (← encoders.serializedLen envelope) ≤ segmentMaxBytes then return [envelope]
    let raw ← encoders.toVec msg
    if reassembledMaxBytes < raw.length then return []
    let minimalCount := min (max raw.length 1) segmentCountMax
    if segmentMaxBytes < (← serializedChunkLen encoders envelope 0 minimalCount raw.length
        (raw.take 1)) then return []
    searchSegments encoders envelope raw (max 2 (divCeil raw.length segmentTargetBytes))
  | _ => .ok [envelope]

variable {encoders envelope raw} in
/-- A message too large for one envelope is searched for segments if its least chunk fits. -/
theorem split_of_oversized {msg : μ} {whole least : Nat}
    (carried : envelope.event = .serverMessage msg)
    (measured : encoders.serializedLen envelope = .ok whole)
    (large : segmentMaxBytes < whole)
    (encoded : encoders.toVec msg = .ok raw)
    (within : raw.length ≤ reassembledMaxBytes)
    (chunked : serializedChunkLen encoders envelope 0 (min (max raw.length 1) segmentCountMax)
      raw.length (raw.take 1) = .ok least)
    (fits : least ≤ segmentMaxBytes) :
    splitServerEnvelopeForTransport encoders envelope =
      searchSegments encoders envelope raw (max 2 (divCeil raw.length segmentTargetBytes)) := by
  simp only [splitServerEnvelopeForTransport, carried, measured, encoded, bind, Except.bind,
    Nat.not_le.mpr large, Nat.not_lt.mpr within, chunked, Nat.not_lt.mpr fits, if_false]

/-! ## What the segments are -/

theorem flatMap_chunks (chunkSize count : Nat) :
    (List.range count).flatMap (fun index => (raw.drop (index * chunkSize)).take chunkSize) =
      raw.take (count * chunkSize) := by
  induction count with
  | zero => simp
  | succ count ih => rw [range_succ, flatMap_append, ih, Nat.succ_mul, take_add, flatMap_singleton]

/-- The bytes that a chunk envelope carries. -/
def decodedChunk (segment : ServerEnvelope μ) : Option (List UInt8) :=
  match segment.event with
  | .serverMessageChunk _ _ _ text => Base64.decode text.toList
  | _ => none

/-- Chunk envelopes of a message: few, in order, small, and all of it. -/
structure Segmented (segments : List (ServerEnvelope μ)) : Prop where
  few : segments.length ≤ segmentCountMax
  numbered : ∀ index segment, segments[index]? = some segment → ∃ text, segment =
    { envelope with event := .serverMessageChunk index segments.length raw.length text }
  small : ∀ segment ∈ segments, ∃ size ≤ segmentMaxBytes, encoders.serializedLen segment = .ok size
  whole : ∃ pieces : List _, segments.map decodedChunk = pieces.map some ∧
    pieces.flatten = raw

theorem segmented_of_fit {chunkSize : Nat} (positive : 0 < chunkSize)
    (fit : segmentsFit encoders envelope raw (divCeil raw.length chunkSize) chunkSize = true) :
    ∃ segments, (enumeratedChunks chunkSize raw).mapM (fun piece => buildChunkEnvelope
        envelope piece.1 (divCeil raw.length chunkSize) raw.length piece.2) = .ok segments ∧
      Segmented encoders envelope raw segments := by
  have fits := all_eq_true.mp fit
  have few : divCeil raw.length chunkSize ≤ segmentCountMax := by
    -- with too many segments the first one is not built
    by_contra many
    have first := fits _ (mem_map.mpr ⟨0, mem_range.mpr (by omega), rfl⟩)
    simp [serializedChunkLen, buildChunkEnvelope, Nat.not_le.mp many, Except.bind] at first
  have built : ∀ piece : Nat × List UInt8, buildChunkEnvelope envelope piece.1
      (divCeil raw.length chunkSize) raw.length piece.2 = .ok _ :=
    fun piece => if_neg (Nat.not_lt.mpr few)
  simp only [serializedChunkLen, built, Except.bind] at fits
  simp only [built]
  refine ⟨_, mapM_pure, ⟨?_, ?_, ?_, ?_⟩⟩
  · simpa [enumeratedChunks] using few
  · intro index segment found
    obtain ⟨below, rfl⟩ := List.getElem?_eq_some_iff.mp found
    exact ⟨_, by simp [enumeratedChunks]; rfl⟩
  · intro segment mem
    obtain ⟨piece, listed, rfl⟩ := mem_map.mp mem
    have size := fits piece listed
    split at size
    · exact ⟨_, of_decide_eq_true size, by assumption⟩
    · cases size
  · refine ⟨(enumeratedChunks chunkSize raw).map Prod.snd, ?_, ?_⟩
    · simp [decodedChunk, Base64.decode_encode]
    · have all := (divCeil_le_iff positive).mp (Nat.le_refl (divCeil raw.length chunkSize))
      rw [enumeratedChunks, map_map]
      exact (flatMap_chunks raw _ _).trans (take_of_length_le all)

theorem searchSegments_segmented (segmentCount : Nat) :
    ∃ segments, searchSegments encoders envelope raw segmentCount = .ok segments ∧
      (segments = [] ∨ Segmented encoders envelope raw segments) := by
  fun_induction searchSegments encoders envelope raw segmentCount with
  | case1 _ _ _ fit =>
    obtain ⟨segments, built, segmented⟩ :=
      segmented_of_fit encoders envelope raw (Nat.le_max_left 1 _) fit
    exact ⟨segments, built, .inr segmented⟩
  | case2 => exact ⟨[], rfl, .inl rfl⟩
  | case3 _ _ _ _ _ ih => exact ih

/-- An envelope that comes back alone is not chunked; with no envelope the message is dropped. -/
theorem split_bounded_ordered_lossless (msg : μ) (clientId : ClientId) (streamId : StreamId)
    (seqId : Nat) :
    let envelope : ServerEnvelope μ := ⟨.serverMessage msg, clientId, streamId, seqId⟩
    match splitServerEnvelopeForTransport encoders envelope with
    | .error _ => True
    | .ok segments => segments = [envelope] ∨ segments = [] ∨
        ∃ raw, encoders.toVec msg = .ok raw ∧ Segmented encoders envelope raw segments := by
  intro envelope
  rcases result : splitServerEnvelopeForTransport encoders envelope with error | segments
  · trivial
  simp only [splitServerEnvelopeForTransport, bind, Except.bind, pure, Except.pure, envelope]
    at result
  split at result
  · cases result
  split at result
  · exact .inl (Except.ok.inj result).symm
  split at result
  · cases result
  next raw encoded =>
  split at result
  · exact .inr (.inl (Except.ok.inj result).symm)
  split at result
  · cases result
  split at result
  · exact .inr (.inl (Except.ok.inj result).symm)
  obtain ⟨found, searched, segmented⟩ := searchSegments_segmented encoders envelope raw _
  obtain rfl := Except.ok.inj (searched.symm.trans result)
  exact .inr (segmented.imp_right fun segmented => ⟨raw, encoded, segmented⟩)

end Split

/-! ## A notification that takes two segments -/

def deltaStart : List UInt8 := ("\x7b\"method\":\"item/agentMessage/delta\",\"params\":\x7b" ++
  "\"threadId\":\"t\",\"turnId\":\"u\",\"itemId\":\"i\",\"delta\":\"").toByteArray.data.toList

def deltaEnd : List UInt8 := "\"\x7d\x7d".toByteArray.data.toList

def digitCount (number : Nat) : Nat := (toString number).length

/-- The text of a chunk event around its numbers and its chunk. -/
def chunkFrame : Nat :=
  "\x7b\"type\":\"server_message_chunk\",\"segment_id\":,\"segment_count\":,".length +
    "\"message_size_bytes\":,\"message_chunk_base64\":\"\"".length

/-- The text of an envelope after its event, around the ids. -/
def envelopeFrame : Nat := ",\"client_id\":\"\",\"stream_id\":\"\",\"seq_id\":\x7d".length

/--
`serde_json` on notifications whose delta has so many letters; no text of such
an envelope has a character that is escaped.
-/
def deltaEncoders : Encoders Nat where
  toVec letters := .ok (deltaStart ++ replicate letters 97 ++ deltaEnd)
  serializedLen envelope :=
    let event := match envelope.event with
      | .serverMessage letters => "\x7b\"type\":\"server_message\",\"message\":".length +
          (deltaStart.length + letters + deltaEnd.length)
      | .serverMessageChunk segmentId segmentCount messageSizeBytes text => chunkFrame +
          digitCount segmentId + digitCount segmentCount + digitCount messageSizeBytes + text.length
      | .ack => "\x7b\"type\":\"ack\"".length
      | .pong .active => "\x7b\"type\":\"pong\",\"status\":\"active\"".length
      | .pong .unknown => "\x7b\"type\":\"pong\",\"status\":\"unknown\"".length
    .ok (event + envelopeFrame + envelope.clientId.length + envelope.streamId.length +
      digitCount envelope.seqId)

def largeEnvelope : ServerEnvelope Nat := ⟨.serverMessage 160000, "c", "s", 7⟩

theorem digitCounts : digitCount 0 = 1 ∧ digitCount 1 = 1 ∧ digitCount 2 = 1 ∧
    digitCount 7 = 1 ∧ digitCount 1024 = 4 ∧ digitCount 160099 = 6 := by
  decide +kernel

theorem frames : chunkFrame = 109 ∧ envelopeFrame = 41 ∧ deltaStart.length = 96 ∧
    deltaEnd.length = 3 ∧ "c".length = 1 ∧ "s".length = 1 := by
  decide +kernel

/-- What a chunk of the envelope takes on the wire. -/
theorem serializedChunkLen_delta {segmentId segmentCount size : Nat} {chunk : List UInt8}
    (few : segmentCount ≤ segmentCountMax) :
    serializedChunkLen deltaEncoders largeEnvelope segmentId segmentCount size chunk = .ok
      (153 + digitCount segmentId + digitCount segmentCount + digitCount size +
        4 * ((chunk.length + 2) / 3)) := by
  simp only [serializedChunkLen, buildChunkEnvelope, Nat.not_lt.mpr few, if_false, Except.bind,
    deltaEncoders, largeEnvelope, String.length_ofList, Base64.length_encode, digitCounts, frames]
  congr 1
  omega

/-- Two halves of the message fit. -/
theorem segmentsFit_halves {raw : List UInt8} (size : raw.length = 160099) :
    segmentsFit deltaEncoders largeEnvelope raw 2 80050 = true := by
  have two : divCeil 160099 80050 = 2 := by decide
  simp only [segmentsFit, enumeratedChunks, size, two, all_map, all_eq_true, mem_range,
    Function.comp]
  intro index below
  have digit : digitCount index = 1 := by
    obtain rfl | rfl : index = 0 ∨ index = 1 := by omega
    · exact digitCounts.1
    · exact digitCounts.2.1
  have short := length_take_le 80050 (raw.drop (index * 80050))
  rw [serializedChunkLen_delta (by decide)]
  simp only [digit, digitCounts, segmentMaxBytes]
  refine decide_eq_true ?_
  omega

theorem toVec_large : ∃ raw, deltaEncoders.toVec 160000 = .ok raw ∧ raw.length = 160099 := by
  refine ⟨_, rfl, ?_⟩
  rw [length_append, length_append, length_replicate, frames.2.2.1, frames.2.2.2.1]

theorem serializedLen_large : ∃ whole, deltaEncoders.serializedLen largeEnvelope = .ok whole ∧
    segmentMaxBytes < whole := by
  refine ⟨_, rfl, ?_⟩
  simp only [largeEnvelope, frames, segmentMaxBytes]
  omega

theorem serializedLen_least {raw : List UInt8} (size : raw.length = 160099) :
    serializedChunkLen deltaEncoders largeEnvelope 0 (min (max raw.length 1) segmentCountMax)
      raw.length (raw.take 1) = .ok 168 := by
  have most : min (max 160099 1) segmentCountMax = 1024 := by decide
  rw [size, most, serializedChunkLen_delta (by decide), length_take, size]
  simp only [digitCounts]
  rfl

theorem searchSegments_large {raw : List UInt8} (size : raw.length = 160099) :
    ∃ segments, searchSegments deltaEncoders largeEnvelope raw 2 = .ok segments ∧
      segments.length = 2 := by
  have halves : chunkSizeFor raw.length 2 = 80050 ∧ divCeil raw.length 80050 = 2 := by
    rw [size]
    decide
  have each : ∀ piece : Nat × List UInt8, buildChunkEnvelope largeEnvelope piece.1 2 raw.length
      piece.2 = pure _ := fun _ => rfl
  rw [searchSegments]
  simp only [halves, segmentsFit_halves size, if_true, each, mapM_pure]
  exact ⟨_, rfl, by simp only [enumeratedChunks, length_map, length_range, halves]⟩

/-- The notification is sent in two chunks. -/
theorem large_notification_segmented : ∃ raw segments, deltaEncoders.toVec 160000 = .ok raw ∧
    splitServerEnvelopeForTransport deltaEncoders largeEnvelope = .ok segments ∧
      segments.length = 2 ∧ Segmented deltaEncoders largeEnvelope raw segments := by
  obtain ⟨raw, encoded, size⟩ := toVec_large
  obtain ⟨whole, measured, large⟩ := serializedLen_large
  obtain ⟨segments, searched, two⟩ := searchSegments_large size
  have within : raw.length ≤ reassembledMaxBytes := by
    rw [size]
    decide
  have start : max 2 (divCeil raw.length segmentTargetBytes) = 2 := by
    rw [size]
    decide
  have split : splitServerEnvelopeForTransport deltaEncoders largeEnvelope = .ok segments := by
    rw [split_of_oversized rfl measured large encoded within (serializedLen_least size) (by decide),
      start, searched]
  obtain ⟨letters, isLarge⟩ : ∃ letters, letters = 160000 := ⟨_, rfl⟩
  have split' : splitServerEnvelopeForTransport deltaEncoders
      ⟨.serverMessage letters, "c", "s", 7⟩ = .ok segments := isLarge ▸ split
  have sound := split_bounded_ordered_lossless deltaEncoders letters "c" "s" 7
  simp only [split'] at sound
  rcases sound with rfl | rfl | ⟨raw', encoded', segmented⟩
  · cases two
  · cases two
  · rw [isLarge] at encoded' segmented
    rw [encoded, Except.ok.injEq] at encoded'
    exact ⟨raw, segments, encoded, split, two, encoded' ▸ segmented⟩

end Codex.RemoteControl.OutboundSegments
