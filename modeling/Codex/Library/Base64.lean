import Mathlib.Data.List.Basic

/-!
# Base64

The standard alphabet with padding: three bytes are written as four symbols of
six bits, and the last one or two bytes are filled up with `=`.  Decoding
takes only the canonical text of some bytes.
-/

namespace Codex.Library.Base64

/-- The symbol of six bits. -/
def symbol (bits : Nat) : Char :=
  if bits < 26 then Char.ofNat (bits + 65)
  else if bits < 52 then Char.ofNat (bits + 71)
  else if bits < 62 then Char.ofNat (bits - 4)
  else if bits = 62 then '+'
  else '/'

/-- The six bits of a symbol. -/
def bitsOf (char : Char) : Option Nat :=
  if 'A' ≤ char ∧ char ≤ 'Z' then some (char.toNat - 65)
  else if 'a' ≤ char ∧ char ≤ 'z' then some (char.toNat - 71)
  else if '0' ≤ char ∧ char ≤ '9' then some (char.toNat + 4)
  else if char = '+' then some 62
  else if char = '/' then some 63
  else none

def encode : List UInt8 → List Char
  | [] => []
  | [a] => [symbol (a.toNat / 4), symbol (a.toNat % 4 * 16), '=', '=']
  | [a, b] =>
    [symbol (a.toNat / 4), symbol (a.toNat % 4 * 16 + b.toNat / 16), symbol (b.toNat % 16 * 4), '=']
  | a :: b :: c :: rest =>
    symbol (a.toNat / 4) :: symbol (a.toNat % 4 * 16 + b.toNat / 16) ::
      symbol (b.toNat % 16 * 4 + c.toNat / 64) :: symbol (c.toNat % 64) :: encode rest

/-- The bytes of four symbols, which are padded only at the end. -/
def quantum (isLast : Bool) (w x y z : Char) : Option (List UInt8) :=
  match bitsOf w, bitsOf x, bitsOf y, bitsOf z with
  | some w, some x, some y, some z =>
    some [.ofNat (w * 4 + x / 16), .ofNat (x % 16 * 16 + y / 4), .ofNat (y % 4 * 64 + z)]
  | some w, some x, some y, none =>
    if isLast ∧ z = '=' ∧ y % 4 = 0 then
      some [.ofNat (w * 4 + x / 16), .ofNat (x % 16 * 16 + y / 4)]
    else none
  | some w, some x, none, none =>
    if isLast ∧ y = '=' ∧ z = '=' ∧ x % 16 = 0 then some [.ofNat (w * 4 + x / 16)] else none
  | _, _, _, _ => none

def decode : List Char → Option (List UInt8)
  | [] => some []
  | w :: x :: y :: z :: rest => do
    let bytes ← quantum rest.isEmpty w x y z
    let more ← decode rest
    return bytes ++ more
  | _ => none

theorem bitsOf_symbol {bits : Nat} (small : bits < 64) : bitsOf (symbol bits) = some bits := by
  have all : ∀ bits < 64, bitsOf (symbol bits) = some bits := by decide
  exact all bits small

theorem bitsOf_padding : bitsOf '=' = none := by decide

theorem decode_encode (bytes : List UInt8) : decode (encode bytes) = some bytes := by
  have restored : ∀ (byte : UInt8) {number : Nat}, number = byte.toNat →
      UInt8.ofNat number = byte := by
    rintro byte _ rfl
    exact UInt8.ofNat_toNat
  fun_induction encode bytes with
  | case1 => rfl
  | case2 a =>
    have small := a.toNat_lt
    simp only [decode, quantum, bitsOf_padding, List.isEmpty_nil,
      bitsOf_symbol (show a.toNat / 4 < 64 by omega),
      bitsOf_symbol (show a.toNat % 4 * 16 < 64 by omega)]
    rw [if_pos ⟨trivial, trivial, trivial, by omega⟩, restored a (by omega)]
    rfl
  | case3 a b =>
    have small := a.toNat_lt
    have smaller := b.toNat_lt
    simp only [decode, quantum, bitsOf_padding, List.isEmpty_nil,
      bitsOf_symbol (show a.toNat / 4 < 64 by omega),
      bitsOf_symbol (show a.toNat % 4 * 16 + b.toNat / 16 < 64 by omega),
      bitsOf_symbol (show b.toNat % 16 * 4 < 64 by omega)]
    rw [if_pos ⟨trivial, trivial, by omega⟩, restored a (by omega), restored b (by omega)]
    rfl
  | case4 a b c rest ih =>
    have small := a.toNat_lt
    have smaller := b.toNat_lt
    have smallest := c.toNat_lt
    simp only [decode, quantum, ih,
      bitsOf_symbol (show a.toNat / 4 < 64 by omega),
      bitsOf_symbol (show a.toNat % 4 * 16 + b.toNat / 16 < 64 by omega),
      bitsOf_symbol (show b.toNat % 16 * 4 + c.toNat / 64 < 64 by omega),
      bitsOf_symbol (show c.toNat % 64 < 64 by omega)]
    rw [restored a (by omega), restored b (by omega), restored c (by omega)]
    rfl

theorem length_encode (bytes : List UInt8) :
    (encode bytes).length = 4 * ((bytes.length + 2) / 3) := by
  fun_induction encode bytes with
  | case1 => rfl
  | case2 => simp
  | case3 => simp
  | case4 a b c rest ih =>
    simp only [List.length_cons, ih]
    omega

end Codex.Library.Base64
