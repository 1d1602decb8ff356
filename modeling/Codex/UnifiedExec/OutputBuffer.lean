import Codex.Rust.Text

/-!
# The output buffer of a running command

The model of `core/src/unified_exec/head_tail_buffer.rs`.  A buffer keeps the
beginning and the end of what a command prints, each within half of its
capacity, and counts the bytes that it drops in between.
-/

namespace Codex.UnifiedExec.OutputBuffer

open Rust.Text List

structure HeadTailBuffer where
  maxBytes : Nat
  headBudget : Nat
  tailBudget : Nat
  head : List (List UInt8)
  tail : List (List UInt8)
  headBytes : Nat
  tailBytes : Nat
  omittedBytes : Nat
  isHeadBudget : headBudget = maxBytes / 2
  isTailBudget : tailBudget = maxBytes - maxBytes / 2
deriving DecidableEq

namespace HeadTailBuffer

def new (maxBytes : Nat) : HeadTailBuffer :=
  ⟨maxBytes, maxBytes / 2, maxBytes - maxBytes / 2, [], [], 0, 0, 0, rfl, rfl⟩

def retainedBytes (buffer : HeadTailBuffer) : Nat := saturatingAdd buffer.headBytes buffer.tailBytes

/-- The loop of `trim_tail_to_budget`, over the chunks from the front. -/
def dropExcess (buffer : HeadTailBuffer) (excess : Nat) : List (List UInt8) → HeadTailBuffer
  | [] => { buffer with tail := [] }
  | front :: rest =>
    if excess = 0 then { buffer with tail := front :: rest }
    else if front.length ≤ excess then
      { buffer with
        tailBytes := buffer.tailBytes - front.length
        omittedBytes := saturatingAdd buffer.omittedBytes front.length
      }.dropExcess (excess - front.length) rest
    else
      { buffer with
        tail := front.drop excess :: rest
        tailBytes := buffer.tailBytes - excess
        omittedBytes := saturatingAdd buffer.omittedBytes excess }

def trimTailToBudget (buffer : HeadTailBuffer) : HeadTailBuffer :=
  buffer.dropExcess (buffer.tailBytes - buffer.tailBudget) buffer.tail

def pushToTail (buffer : HeadTailBuffer) (chunk : List UInt8) : HeadTailBuffer :=
  if buffer.tailBudget = 0 then
    { buffer with omittedBytes := saturatingAdd buffer.omittedBytes chunk.length }
  else if buffer.tailBudget ≤ chunk.length then
    let kept := chunk.drop (chunk.length - buffer.tailBudget)
    { buffer with
      omittedBytes :=
        saturatingAdd (saturatingAdd buffer.omittedBytes buffer.tailBytes)
          (chunk.length - kept.length)
      tail := [kept]
      tailBytes := kept.length }
  else
    { buffer with
      tailBytes := saturatingAdd buffer.tailBytes chunk.length
      tail := buffer.tail ++ [chunk] }.trimTailToBudget

def pushChunk (buffer : HeadTailBuffer) (chunk : List UInt8) : HeadTailBuffer :=
  if buffer.maxBytes = 0 then
    { buffer with omittedBytes := saturatingAdd buffer.omittedBytes chunk.length }
  else if buffer.headBytes < buffer.headBudget then
    let remainingHead := buffer.headBudget - buffer.headBytes
    if chunk.length ≤ remainingHead then
      { buffer with
        headBytes := saturatingAdd buffer.headBytes chunk.length
        head := buffer.head ++ [chunk] }
    else
      -- What remains of the head is not empty, and neither is its part of the chunk.
      { buffer with
        headBytes := saturatingAdd buffer.headBytes remainingHead
        head := buffer.head ++ [chunk.take remainingHead]
      }.pushToTail (chunk.drop remainingHead)
  else buffer.pushToTail chunk

def toBytes (buffer : HeadTailBuffer) : List UInt8 := buffer.head.flatten ++ buffer.tail.flatten

def drainChunks (buffer : HeadTailBuffer) : List (List UInt8) × HeadTailBuffer :=
  (buffer.head ++ buffer.tail,
    { buffer with head := [], tail := [], headBytes := 0, tailBytes := 0, omittedBytes := 0 })

end HeadTailBuffer

/-! ## The tail -/

open HeadTailBuffer

section Push

variable {buffer : HeadTailBuffer} {chunk : List UInt8}

theorem dropExcess_spec {excess : Nat} {chunks : List (List UInt8)}
    (enough : excess ≤ chunks.flatten.length) (bounded : buffer.omittedBytes + excess ≤ usizeMax) :
    ∃ tail, tail.flatten = chunks.flatten.drop excess ∧ buffer.dropExcess excess chunks =
      { buffer with
        tail := tail
        tailBytes := buffer.tailBytes - excess
        omittedBytes := buffer.omittedBytes + excess } := by
  induction chunks generalizing buffer excess with
  | nil =>
    obtain rfl : excess = 0 := by simpa using enough
    exact ⟨[], rfl, rfl⟩
  | cons front rest ih =>
    unfold dropExcess
    rw [flatten_cons, length_append] at enough
    split_ifs with none whole
    · exact ⟨front :: rest, by simp [none], by simp [none]⟩
    · rw [saturatingAdd, min_eq_left (by omega)]
      obtain ⟨tail, isTail, trimmed⟩ := @ih
        { buffer with
          tailBytes := buffer.tailBytes - front.length
          omittedBytes := buffer.omittedBytes + front.length }
        (excess - front.length) (by omega) (by dsimp only; omega)
      refine ⟨tail, ?_, ?_⟩
      · rw [isTail, flatten_cons, drop_append, drop_of_length_le whole, nil_append]
      · rw [trimmed]
        congr 1 <;> dsimp only <;> omega
    · refine ⟨front.drop excess :: rest, ?_, ?_⟩
      · rw [flatten_cons, flatten_cons, drop_append_of_le_length (by omega)]
      · rw [saturatingAdd, min_eq_left bounded]

/-- A chunk pushed to the tail leaves its last bytes, and the rest is counted. -/
theorem pushToTail_spec (positive : 0 < buffer.tailBudget)
    (counted : buffer.tailBytes = buffer.tail.flatten.length)
    (bounded : buffer.omittedBytes + buffer.tailBytes + chunk.length ≤ usizeMax) :
    ∃ tail, tail.flatten = (buffer.tail.flatten ++ chunk).drop
        (buffer.tailBytes + chunk.length - buffer.tailBudget) ∧
      buffer.pushToTail chunk = { buffer with
          tail := tail
          tailBytes := tail.flatten.length
          omittedBytes := buffer.omittedBytes + buffer.tailBytes + chunk.length -
            tail.flatten.length } := by
  unfold pushToTail
  rw [if_neg positive.ne']
  split_ifs with large
  · refine ⟨[chunk.drop (chunk.length - buffer.tailBudget)], ?_, ?_⟩
    · have beyond : buffer.tail.flatten.length ≤
          buffer.tailBytes + chunk.length - buffer.tailBudget := by omega
      rw [drop_append, drop_of_length_le beyond, nil_append, flatten_singleton]
      congr 1
      omega
    · simp only [saturatingAdd, flatten_singleton, length_drop]
      congr 1
      omega
  · rw [saturatingAdd, min_eq_left (by omega), trimTailToBudget]
    have grown : (buffer.tail ++ [chunk]).flatten = buffer.tail.flatten ++ chunk := by simp
    obtain ⟨tail, isTail, trimmed⟩ := @dropExcess_spec
      { buffer with
        tailBytes := buffer.tailBytes + chunk.length
        tail := buffer.tail ++ [chunk] }
      (buffer.tailBytes + chunk.length - buffer.tailBudget) (buffer.tail ++ [chunk])
      (by rw [grown, length_append]; omega) (by dsimp only; omega)
    rw [grown] at isTail
    have kept := congrArg List.length isTail
    rw [length_drop, length_append] at kept
    refine ⟨tail, isTail, trimmed.trans ?_⟩
    congr 1 <;> dsimp only <;> omega

/-! ## The whole buffer -/

/-- A buffer keeps the beginning and the end of a text, and counts what it has. -/
structure Keeps (buffer : HeadTailBuffer) (text : List UInt8) : Prop where
  head : buffer.head.flatten = text.take buffer.headBudget
  tail : buffer.tail.flatten =
    text.drop (max buffer.headBudget (text.length - buffer.tailBudget))
  headBytes : buffer.headBytes = buffer.head.flatten.length
  tailBytes : buffer.tailBytes = buffer.tail.flatten.length
  total : buffer.omittedBytes + buffer.headBytes + buffer.tailBytes = text.length

/-- Where the tail and a chunk make up the end of a text, pushing the chunk keeps the text. -/
theorem keeps_pushToTail {text : List UInt8} {cut : Nat} (positive : 0 < buffer.tailBudget)
    (head : buffer.head.flatten = text.take buffer.headBudget)
    (headBytes : buffer.headBytes = buffer.head.flatten.length)
    (tailBytes : buffer.tailBytes = buffer.tail.flatten.length)
    (isEnd : buffer.tail.flatten ++ chunk = text.drop cut) (after : buffer.headBudget ≤ cut)
    (before : cut ≤ max buffer.headBudget (text.length - buffer.tailBudget))
    (total : buffer.omittedBytes + buffer.headBytes + buffer.tailBytes + chunk.length =
      text.length) (bounded : text.length ≤ usizeMax) :
    Keeps (buffer.pushToTail chunk) text ∧
      (buffer.pushToTail chunk).maxBytes = buffer.maxBytes := by
  obtain ⟨tail, isTail, pushed⟩ := @pushToTail_spec buffer chunk positive tailBytes (by omega)
  have length := congrArg List.length isEnd
  rw [length_append, length_drop, ← tailBytes] at length
  have kept := congrArg List.length isTail
  rw [isEnd, length_drop, length_drop] at kept
  rw [pushed]
  refine ⟨⟨head, ?_, headBytes, rfl, by dsimp only; omega⟩, rfl⟩
  rw [isTail, isEnd, drop_drop]
  dsimp only
  congr 1
  omega

theorem Keeps.pushChunk {text : List UInt8} (keeps : Keeps buffer text)
    (bounded : (text ++ chunk).length ≤ usizeMax) :
    Keeps (buffer.pushChunk chunk) (text ++ chunk) ∧
      (buffer.pushChunk chunk).maxBytes = buffer.maxBytes := by
  obtain ⟨head, tail, headBytes, tailBytes, total⟩ := keeps
  have isHeadBudget := buffer.isHeadBudget
  have isTailBudget := buffer.isTailBudget
  have headLength := congrArg List.length head
  rw [length_take, ← headBytes] at headLength
  rw [length_append] at bounded
  -- While the head has room, it has the whole text and the tail has nothing.
  have headOnly : buffer.headBytes < buffer.headBudget →
      buffer.tail.flatten = [] ∧ buffer.tailBytes = 0 ∧ text.length = buffer.headBytes := by
    intro room
    rw [tailBytes, tail, drop_of_length_le (by omega)]
    exact ⟨rfl, rfl, by omega⟩
  unfold HeadTailBuffer.pushChunk
  dsimp only
  split_ifs with nothing room fits
  · rw [saturatingAdd, min_eq_left (by omega)]
    refine ⟨⟨?_, ?_, headBytes, tailBytes, ?_⟩, rfl⟩ <;> dsimp only
    · rw [head, show buffer.headBudget = 0 by omega, take_zero, take_zero]
    · rw [tail, drop_of_length_le (by omega), drop_of_length_le (by omega)]
    · rw [length_append]
      omega
  · obtain ⟨noTail, noTailBytes, isText⟩ := headOnly room
    rw [saturatingAdd, min_eq_left (by omega)]
    refine ⟨⟨?_, ?_, ?_, tailBytes, ?_⟩, rfl⟩ <;>
      simp only [flatten_append, flatten_singleton, length_append]
    · rw [head, take_of_length_le (by omega), take_of_length_le]
      rw [length_append]
      omega
    · rw [noTail, drop_of_length_le]
      rw [length_append]
      omega
    all_goals omega
  · obtain ⟨noTail, noTailBytes, isText⟩ := headOnly room
    have short : text.length ≤ buffer.headBudget := by omega
    rw [saturatingAdd, min_eq_left (by omega)]
    refine keeps_pushToTail ?_ ?_ ?_ tailBytes ?_ (le_refl buffer.headBudget) (le_max_left _ _)
      ?_ ?_ <;>
      simp only [flatten_append, flatten_singleton, length_append, length_take, length_drop]
    · omega
    · rw [head, take_append, take_of_length_le short, isText]
    · omega
    · rw [noTail, drop_append, drop_of_length_le short, isText]
    all_goals omega
  · refine keeps_pushToTail (by omega) ?_ headBytes tailBytes ?_
      (le_max_left _ (text.length - buffer.tailBudget)) ?_ ?_ ?_ <;>
      try rw [length_append]
    · rw [head, take_append_of_le_length (by omega)]
    · rw [tail, drop_append_of_le_length (by omega)]
    all_goals omega

end Push

theorem keeps_pushAll {buffer : HeadTailBuffer} {text : List UInt8} (keeps : Keeps buffer text)
    {chunks : List (List UInt8)} (bounded : (text ++ chunks.flatten).length ≤ usizeMax) :
    Keeps (chunks.foldl HeadTailBuffer.pushChunk buffer) (text ++ chunks.flatten) ∧
      (chunks.foldl HeadTailBuffer.pushChunk buffer).maxBytes = buffer.maxBytes := by
  induction chunks generalizing buffer text with
  | nil => simpa using keeps
  | cons chunk chunks ih =>
    rw [flatten_cons, ← append_assoc] at bounded ⊢
    have shorter : (text ++ chunk).length ≤ usizeMax := by
      rw [length_append] at bounded
      omega
    obtain ⟨pushed, sameSize⟩ := keeps.pushChunk shorter
    rw [foldl_cons, ← sameSize]
    exact ih pushed bounded

/-- An empty buffer of a capacity: a new one, or any that has been drained. -/
def Fresh (maxBytes : Nat) (buffer : HeadTailBuffer) : Prop :=
  buffer = new maxBytes ∨ ∃ used : HeadTailBuffer, used.maxBytes = maxBytes ∧
      buffer = used.drainChunks.2

theorem Fresh.keeps {maxBytes : Nat} {buffer : HeadTailBuffer} (fresh : Fresh maxBytes buffer) :
    Keeps buffer [] ∧ buffer.maxBytes = maxBytes := by
  rcases fresh with rfl | ⟨used, rfl, rfl⟩
  · exact ⟨⟨by simp [new], by simp [new], rfl, rfl, rfl⟩, rfl⟩
  · exact ⟨⟨by simp [drainChunks], by simp [drainChunks], rfl, rfl, rfl⟩, rfl⟩

/-- However an output is cut into chunks, exactly its beginning and its end are kept. -/
theorem output_kept_head_and_tail {maxBytes : Nat} {start : HeadTailBuffer}
    (fresh : Fresh maxBytes start) (chunks : List (List UInt8))
    (bounded : chunks.flatten.length ≤ usizeMax) :
    let text := chunks.flatten
    let buffer := chunks.foldl HeadTailBuffer.pushChunk start
    buffer.toBytes =
        (if text.length ≤ maxBytes then text
        else text.take (maxBytes / 2) ++ text.drop (text.length - (maxBytes - maxBytes / 2))) ∧
      buffer.retainedBytes = buffer.toBytes.length ∧
      buffer.omittedBytes = text.length - buffer.toBytes.length ∧
      buffer.drainChunks.1.flatten = buffer.toBytes := by
  dsimp only
  obtain ⟨empty, isMax⟩ := fresh.keeps
  obtain ⟨⟨head, tail, headBytes, tailBytes, total⟩, sameSize⟩ := keeps_pushAll empty bounded
  rw [isMax] at sameSize
  generalize chunks.foldl HeadTailBuffer.pushChunk start = buffer at *
  rw [isHeadBudget, sameSize] at head tail
  rw [isTailBudget, sameSize] at tail
  have isLength : buffer.headBytes + buffer.tailBytes = buffer.toBytes.length := by
    rw [headBytes, tailBytes, toBytes, length_append]
  rw [nil_append] at head tail total
  refine ⟨?_, ?_, by omega, flatten_append⟩
  · rw [toBytes, head, tail]
    split_ifs with fits
    · rw [max_eq_left (by omega), take_append_drop]
    · rw [max_eq_right (by omega)]
  · rw [retainedBytes, saturatingAdd, min_eq_left (by omega), isLength]

/-- Six bytes in three chunks, of which a buffer of four drops the middle two. -/
theorem four_of_six_bytes_kept :
    ([[1, 2, 3], [], [4, 5, 6]].foldl HeadTailBuffer.pushChunk (new 4)).toBytes = [1, 2, 5, 6] :=
  (output_kept_head_and_tail (.inl rfl) [[1, 2, 3], [], [4, 5, 6]] (by decide)).1

end Codex.UnifiedExec.OutputBuffer
