import Mathlib.Data.String.Basic

/-!
# Rust text and machine-word operations

The modelled code is written against `str`, `usize` and `u64`.  This module
states the few operations of the standard library that it uses, on Lean
strings read as lists of characters.
-/

namespace Codex.Rust.Text

open List

/-! ## Saturating machine words -/

/-- `usize::MAX` on the supported 64-bit targets. -/
def usizeMax : Nat := 18446744073709551615

def u64Max : Nat := 18446744073709551615

def saturatingAdd (left right : Nat) : Nat := min (left + right) usizeMax

def saturatingMul (left right : Nat) : Nat := min (left * right) usizeMax

/-! ## Trimming -/

/-- The Unicode `White_Space` property, which `str::trim` strips. -/
def isWhiteSpace (char : Char) : Bool :=
  let code := char.toNat
  (9 ≤ code && code ≤ 13) || code == 0x20 || code == 0x85 ||
    code == 0xA0 || code == 0x1680 || (0x2000 ≤ code && code ≤ 0x200A) ||
    code == 0x2028 || code == 0x2029 || code == 0x202F ||
    code == 0x205F || code == 0x3000

variable (text : String)

def trimStart : String := String.ofList (text.toList.dropWhile isWhiteSpace)

def trimEnd : String := String.ofList (text.toList.reverse.dropWhile isWhiteSpace).reverse

def trim : String := trimEnd (trimStart text)

/-! ## ASCII -/

def isAscii : Bool := text.toList.all fun char => decide (char.toNat < 128)

variable (text marker : String)

theorem utf8ByteSize_of_isAscii
    (ascii : isAscii text = true) : text.utf8ByteSize = text.length := by
  have counted : ∀ chars : List Char,
      (chars.all fun char => decide (char.toNat < 128)) →
        String.utf8Len chars = chars.length := by
    intro chars
    induction chars with
    | nil => simp
    | cons char rest ih =>
      intro small
      simp only [all_cons, Bool.and_eq_true, decide_eq_true_eq] at small
      have single : char.utf8Size = 1 := by
        rw [Char.utf8Size_eq_one_iff, UInt32.le_iff_toNat_le]
        exact Nat.le_of_lt_succ small.1
      rw [String.utf8Len_cons, ih small.2, single, length_cons]
  rw [← String.utf8Len_toList, counted text.toList ascii, String.length_toList]

/-! ## Affixes -/

def stripPrefix? (text marker : String) : Option String :=
  (text.toList.dropPrefix? marker.toList).map String.ofList

def startsWith (text marker : String) : Bool := marker.toList.isPrefixOf text.toList

def endsWith (text marker : String) : Bool := marker.toList.isSuffixOf text.toList

/--
`text.get(..marker.len())` compared with `eq_ignore_ascii_case`, for an ASCII
marker.
-/
def startsWithIgnoreAsciiCase (text marker : String) : Bool :=
  (text.toList.take marker.length).map Char.toLower == marker.toList.map Char.toLower

/--
`text.get(text.len().saturating_sub(marker.len())..)` compared with
`eq_ignore_ascii_case`, for an ASCII marker.
-/
def endsWithIgnoreAsciiCase (text marker : String) : Bool :=
  (text.toList.reverse.take marker.length).map Char.toLower ==
    marker.toList.reverse.map Char.toLower

/-- The first occurrence of a delimiter, as the text before and after it. -/
def splitOnceChars (delimiter : List Char) : List Char → Option (List Char × List Char)
  | [] => none
  | char :: rest =>
    match (char :: rest).dropPrefix? delimiter with
    | some after => some ([], after)
    | none => (splitOnceChars delimiter rest).map fun parts => (char :: parts.1, parts.2)

/-- `str::split_once`, for a nonempty delimiter. -/
def splitOnce (text delimiter : String) : Option (String × String) :=
  (splitOnceChars delimiter.toList text.toList).map
    fun parts => (String.ofList parts.1, String.ofList parts.2)

theorem stripPrefix?_eq_some (rest : String) (stripped : stripPrefix? text marker = some rest) :
    text = marker ++ rest := by
  obtain ⟨chars, found, rfl⟩ := Option.map_eq_some_iff.mp stripped
  obtain ⟨front, split, same⟩ := dropPrefix?_eq_some_iff.mp found
  have frontEq : front = marker.toList := by simpa using same
  rw [String.ext_iff]
  simp [split, frontEq]

theorem stripPrefix?_append (rest : String) : stripPrefix? (marker ++ rest) marker = some rest := by
  have dropped : (marker ++ rest).toList.dropPrefix? marker.toList = some rest.toList :=
    dropPrefix?_eq_some_iff.mpr ⟨marker.toList, by simp, by simp⟩
  rw [stripPrefix?, dropped, Option.map_some, String.ofList_toList]

theorem startsWith_eq_isSome : startsWith text marker = (stripPrefix? text marker).isSome := by
  rw [Bool.eq_iff_iff, startsWith, isPrefixOf_iff_prefix, Option.isSome_iff_exists]
  constructor
  · rintro ⟨rest, whole⟩
    refine ⟨String.ofList rest, ?_⟩
    have split : text = marker ++ String.ofList rest := by
      rw [String.ext_iff]
      simpa using whole.symm
    rw [split, stripPrefix?_append]
  · rintro ⟨rest, stripped⟩
    rw [stripPrefix?_eq_some text marker rest stripped]
    simp

theorem stripPrefix?_eq_none_of_head (first : Char) (marked : marker.toList.head? = some first)
    (other : text.toList.head? ≠ some first) : stripPrefix? text marker = none := by
  cases stripped : stripPrefix? text marker with
  | none => rfl
  | some rest =>
    rw [stripPrefix?_eq_some text marker rest stripped,
      String.toList_append, head?_append, marked] at other
    exact absurd rfl other

/-- A text with a certain character is no marker with another one there. -/
theorem stripPrefix?_eq_none_of_getElem (index : Nat) (here there : Char)
    (inText : text.toList[index]? = some here) (inMarker : marker.toList[index]? = some there)
    (different : here ≠ there) : stripPrefix? text marker = none := by
  cases stripped : stripPrefix? text marker with
  | none => rfl
  | some rest =>
    exfalso
    rw [stripPrefix?_eq_some _ _ _ stripped, String.toList_append,
      getElem?_append_left (List.getElem?_eq_some_iff.mp inMarker).1,
      inMarker] at inText
    exact different (Option.some.inj inText).symm

theorem splitOnceChars_eq_some {delimiter text : List Char} (before : List Char) {after : List Char}
    (found : splitOnceChars delimiter text = some (before, after)) :
    text = before ++ delimiter ++ after := by
  induction text generalizing before with
  | nil => simp [splitOnceChars] at found
  | cons char rest ih =>
    rw [splitOnceChars] at found
    cases here : (char :: rest).dropPrefix? delimiter with
    | some tail =>
      rw [here] at found
      simp only [Option.some.injEq, Prod.mk.injEq] at found
      obtain ⟨rfl, rfl⟩ := found
      obtain ⟨front, split, same⟩ := dropPrefix?_eq_some_iff.mp here
      have frontEq : front = delimiter := by simpa using same
      simpa [frontEq] using split
    | none =>
      rw [here] at found
      obtain ⟨parts, later, pair⟩ := Option.map_eq_some_iff.mp found
      obtain ⟨rfl, rfl⟩ := Prod.mk.inj pair
      simp [ih parts.1 later]

/-- The two parts around the delimiter make up the text. -/
theorem splitOnce_eq_some {delimiter before after : String}
    (found : splitOnce text delimiter = some (before, after)) :
    text = before ++ delimiter ++ after := by
  obtain ⟨parts, inChars, pair⟩ := Option.map_eq_some_iff.mp found
  obtain ⟨rfl, rfl⟩ := Prod.mk.inj pair
  have split := splitOnceChars_eq_some parts.1 inChars
  rw [String.ext_iff]
  simpa using split

end Codex.Rust.Text
