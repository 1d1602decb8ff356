import Mathlib.Data.List.Basic

/-!
# Loop detection

`LoopDetector` of `core/src/loop_detection.rs`: ring buffers of the recent tool
calls and assistant messages, each kept as a hash, and the check that the last
few entries are all the same.  The hash is a parameter.
-/

namespace Codex.Turn.LoopDetection

variable {α : Type} [DecidableEq α]

def defaultToolLoopThreshold : Nat := 5

def defaultContentLoopThreshold : Nat := 10

def maxHistory : Nat := 64

def loopBreakMessage : String :=
  "You appear to be in a loop, repeating the same tool calls or producing " ++
    "the same output repeatedly. Please try a different approach."

structure LoopDetector where
  toolCallHistory : List (String × UInt64)
  toolLoopThreshold : Nat
  contentHashes : List UInt64
  contentLoopThreshold : Nat
deriving DecidableEq

/-- A push to a ring buffer, which drops the oldest entry of a full one. -/
def pushBounded (entries : List α) (entry : α) : List α :=
  (if maxHistory ≤ entries.length then entries.drop 1 else entries) ++ [entry]

/-- Whether the last `threshold` entries are all the same. -/
def detectLoop (threshold : Nat) (entries : List α) : Bool :=
  if entries.length < threshold then false
  else
    match entries.getLast? with
    | none => false
    | some last => (entries.reverse.take threshold).all (· = last)

variable (detector : LoopDetector) (hashString : String → UInt64)

namespace LoopDetector

def new : LoopDetector := ⟨[], defaultToolLoopThreshold, [], defaultContentLoopThreshold⟩

def detectToolLoop : Bool := detectLoop detector.toolLoopThreshold detector.toolCallHistory

def detectContentLoop : Bool := detectLoop detector.contentLoopThreshold detector.contentHashes

def recordToolCall (detector : LoopDetector) (name args : String) : LoopDetector × Bool :=
  let detector :=
    { detector with
      toolCallHistory := pushBounded detector.toolCallHistory (name, hashString args) }
  (detector, detector.detectToolLoop)

def recordContent (detector : LoopDetector) (content : String) : LoopDetector × Bool :=
  let detector :=
    { detector with
      contentHashes := pushBounded detector.contentHashes (hashString content) }
  (detector, detector.detectContentLoop)

def reset : LoopDetector := { detector with toolCallHistory := [], contentHashes := [] }

end LoopDetector

/-! ## The bounded buffers answer as unbounded logs -/

open List

/-- What a ring buffer keeps of a log. -/
def recent (log : List α) : List α := log.drop (log.length - maxHistory)

omit [DecidableEq α] in
theorem pushBounded_recent (log : List α) (entry : α) :
    pushBounded (recent log) entry = recent (log ++ [entry]) := by
  have room : log.length + 1 - maxHistory ≤ log.length := by
    unfold maxHistory
    omega
  rw [pushBounded, recent, recent, length_append, length_singleton, length_drop,
    drop_append_of_le_length room]
  congr 1
  split
  · rw [drop_drop]
    congr 1
    omega
  · congr 1
    omega

theorem detectLoop_recent {threshold : Nat} (short : threshold ≤ maxHistory) (log : List α) :
    detectLoop threshold (recent log) = detectLoop threshold log := by
  have reversed : (recent log).reverse = log.reverse.take maxHistory := by
    rw [recent, take_reverse]
  have last : (recent log).getLast? = log.getLast? := by
    rw [← head?_reverse, reversed, head?_take, if_neg (by decide), head?_reverse]
  have length : (recent log).length < threshold ↔ log.length < threshold := by
    rw [recent, length_drop]
    omega
  simp only [detectLoop, last, reversed, take_take, Nat.min_eq_left short, length]

/-- What the detector is told. -/
inductive Record where
  | toolCall (name args : String)
  | content (text : String)
  | reset
deriving DecidableEq

namespace LoopDetector

def observe : Record → LoopDetector
  | .toolCall name args => (detector.recordToolCall hashString name args).1
  | .content text => (detector.recordContent hashString text).1
  | .reset => detector.reset

/-- The tool calls since the last reset. -/
def toolLog (log : List (String × UInt64)) : Record → List (String × UInt64)
  | .toolCall name args => log ++ [(name, hashString args)]
  | .content _ => log
  | .reset => []

/-- The hashed texts since the last reset. -/
def contentLog (log : List UInt64) : Record → List UInt64
  | .toolCall _ _ => log
  | .content text => log ++ [hashString text]
  | .reset => []

theorem foldl_observe (records : List Record) (tools : List (String × UInt64))
    (contents : List UInt64) :
    records.foldl (observe · hashString) ⟨recent tools, defaultToolLoopThreshold, recent contents,
        defaultContentLoopThreshold⟩ =
      ⟨recent (records.foldl (toolLog hashString) tools), defaultToolLoopThreshold,
        recent (records.foldl (contentLog hashString) contents), defaultContentLoopThreshold⟩ := by
  induction records generalizing tools contents with
  | nil => rfl
  | cons record records ih =>
    rw [foldl_cons, foldl_cons, foldl_cons, ← ih]
    cases record <;> simp only [observe, recordToolCall, recordContent, reset, toolLog, contentLog,
      pushBounded_recent]
    rfl

/-- Keeping 64 entries loses nothing: a loop is reported exactly if the full logs since the last
reset end in one. -/
theorem detects_as_unbounded (records : List Record) :
    (records.foldl (observe · hashString) .new).detectToolLoop =
        detectLoop defaultToolLoopThreshold (records.foldl (toolLog hashString) []) ∧
      (records.foldl (observe · hashString) .new).detectContentLoop =
        detectLoop defaultContentLoopThreshold (records.foldl (contentLog hashString) []) := by
  have run := foldl_observe hashString records [] []
  rw [show LoopDetector.new = ⟨recent [], _, recent [], _⟩ from rfl, run]
  exact ⟨@detectLoop_recent _ _ 5 (by decide) _, @detectLoop_recent _ _ 10 (by decide) _⟩

end LoopDetector

end Codex.Turn.LoopDetection
