import Codex.Library.EscapeRemoval
import Codex.Rust.Text
import Mathlib.Data.List.Sort

/-!
# The words of a shell script

The model of `shell-command/src/bash.rs`: which trees of a parsed script count
as a sequence of plain commands, and the words that are read off them.  The
tree is the one that the Bash grammar yields; a node has its kind, the text it
spans and its children.
-/

namespace Codex.ShellCommand.BashWords

open Library.EscapeRemoval Rust.Text List

/-! ## Trees -/

inductive Node where
  | mk (kind : String) (isNamed : Bool) (text : String) (startByte : Nat) (children : List Node)

namespace Node

def kind : Node → String
  | .mk kind _ _ _ _ => kind

def isNamed : Node → Bool
  | .mk _ isNamed _ _ _ => isNamed

def text : Node → String
  | .mk _ _ text _ _ => text

def startByte : Node → Nat
  | .mk _ _ _ startByte _ => startByte

def children : Node → List Node
  | .mk _ _ _ _ children => children

def namedChildren (node : Node) : List Node := node.children.filter isNamed

mutual

/-- The nodes that a walk with a stack pops, in the order it pops them. -/
def visited : Node → List Node
  | .mk kind isNamed text startByte children =>
    .mk kind isNamed text startByte children :: visitedAll children

/-- The nodes below a list of children: the last child is popped first. -/
def visitedAll : List Node → List Node
  | [] => []
  | node :: nodes => visitedAll nodes ++ node.visited

end

end Node

structure Tree where
  rootNode : Node
  hasError : Bool

/-! ## Reading words -/

def allowedKinds : List String := ["program", "list", "pipeline", "command", "command_name", "word",
    "string", "string_content", "raw_string", "number", "concatenation"]

def allowedPunctTokens : List String := ["&&", "||", ";", "|", "\"", "'"]

def allowsNode (node : Node) : Bool :=
  if node.isNamed then allowedKinds.contains node.kind
  else if (node.kind.toList.any fun char =>
      ['&', ';', '|'].contains char) &&
      !allowedPunctTokens.contains node.kind then false
  else allowedPunctTokens.contains node.kind || (trim node.kind).isEmpty

def stripQuotes (quote : Char) (text : String) : Option String :=
  match text.toList with
  | [] => none
  | first :: rest =>
    if first = quote ∧ rest.getLast? = some quote then some (String.ofList rest.dropLast)
    else none

def parseDoubleQuotedString (node : Node) : Option String :=
  if node.kind != "string" then none
  else if node.namedChildren.any fun part => part.kind != "string_content" then none
  else stripQuotes '"' node.text

def parseRawString (node : Node) : Option String :=
  if node.kind != "raw_string" then none
  else stripQuotes '\'' node.text

def parsePart (part : Node) : Option String :=
  match part.kind with
  | "word" => some part.text
  | "number" => some part.text
  | "string" => parseDoubleQuotedString part
  | "raw_string" => parseRawString part
  | _ => none

/-- The word that `parse_plain_command_from_node` pushes for a child. -/
def parseChild (child : Node) : Option String :=
  match child.kind with
  | "command_name" =>
    match child.namedChildren with
    | [] => none
    | wordNode :: _ => if wordNode.kind != "word" then none else some wordNode.text
  | "concatenation" => do
    let parts ← child.namedChildren.mapM parsePart
    let concatenated := String.join parts
    if concatenated.isEmpty then none else some concatenated
  | _ => parsePart child

def parsePlainCommandFromNode (command : Node) : Option (List String) :=
  if command.kind != "command" then none
  else command.namedChildren.mapM parseChild

/-- The command nodes that the walk collects, in source order. -/
def commandNodes (tree : Tree) : List Node := (tree.rootNode.visited.filter fun node =>
    node.isNamed && node.kind == "command").insertionSort
      fun left right => left.startByte ≤ right.startByte

def tryParseWordOnlyCommandsSequence (tree : Tree) : Option (List (List String)) :=
  if tree.hasError then none
  else if tree.rootNode.visited.all allowsNode then
    (commandNodes tree).mapM parsePlainCommandFromNode
  else none

/-! ## Quote removal -/

def quotesAny (_character : Char) : Bool := true

/-- Inside double quotes a backslash quotes these characters only. -/
def quotesInString (char : Char) : Bool := ['$', '\x60', '"', '\\', '\n'].contains char

/-- The text that a shell makes of one quoted or unquoted run. -/
def shellPart (part : Node) : List Char :=
  match part.kind with
  | "string" => removeEscapes '\\' quotesInString ((stripQuotes '"' part.text).getD "").toList
  | "raw_string" => ((stripQuotes '\'' part.text).getD "").toList
  | _ => removeEscapes '\\' quotesAny part.text.toList

def shellWord (child : Node) : List Char :=
  match child.kind with
  | "command_name" =>
    match child.namedChildren with
    | [] => []
    | wordNode :: _ => shellPart wordNode
  | "concatenation" => child.namedChildren.flatMap shellPart
  | _ => shellPart child

/-- The argument vector that a shell builds for a command. -/
def shellArgv (command : Node) : List String :=
  command.namedChildren.map fun child => String.ofList (shellWord child)

/-! ## Backslashes that a shell removes -/

/-- A run with a backslash that quote removal takes away. -/
def partHasEscape (part : Node) : Bool :=
  match part.kind with
  | "string" => hasEscape '\\' quotesInString ((stripQuotes '"' part.text).getD "").toList
  | "raw_string" => false
  | _ => hasEscape '\\' quotesAny part.text.toList

def childHasEscape (child : Node) : Bool :=
  match child.kind with
  | "command_name" =>
    match child.namedChildren with
    | [] => false
    | wordNode :: _ => partHasEscape wordNode
  | "concatenation" => child.namedChildren.any partHasEscape
  | _ => partHasEscape child

def hasRemovedBackslash (tree : Tree) : Bool := (commandNodes tree).any fun command =>
    command.namedChildren.any childHasEscape

/-! ## Where the words are the shell's -/

/-- The text that the code reads off a run. -/
def shownPart (part : Node) : List Char := ((parsePart part).getD "").toList

theorem parseDoubleQuotedString_eq_some {node : Node} {text : String}
    (parsed : parseDoubleQuotedString node = some text) :
    stripQuotes '"' node.text = some text := by
  unfold parseDoubleQuotedString at parsed
  split_ifs at parsed
  exact parsed

theorem parseRawString_eq_some {node : Node} {text : String}
    (parsed : parseRawString node = some text) : stripQuotes '\'' node.text = some text := by
  unfold parseRawString at parsed
  split_ifs at parsed
  exact parsed

theorem shellPart_of_parsePart {part : Node} {text : String} (parsed : parsePart part = some text) :
    ((shellPart part).length ≤ text.toList.length) ∧
      (shellPart part = text.toList ↔ partHasEscape part = false) := by
  unfold parsePart at parsed
  unfold shellPart partHasEscape
  split at parsed
  case h_1 isWord | h_2 isWord =>
    obtain rfl := Option.some.inj parsed
    simp only [isWord]
    exact ⟨length_removeEscapes_le _ _ _, removeEscapes_eq_self_iff _ _⟩
  case h_3 isString =>
    simp only [isString, parseDoubleQuotedString_eq_some parsed, Option.getD_some]
    exact ⟨length_removeEscapes_le _ _ _, removeEscapes_eq_self_iff _ _⟩
  case h_4 isRaw => simp [isRaw, parseRawString_eq_some parsed]
  case h_5 => cases parsed

theorem flatMap_shellPart_iff {parts : List Node} {texts : List String}
    (parsed : parts.mapM parsePart = some texts) :
    texts.flatMap String.toList = parts.flatMap shellPart ↔ parts.any partHasEscape = false := by
  have shown : texts = parts.map fun part => (parsePart part).getD "" := by
    rw [eq_map_iff_of_mapM parsed]
    intro part mem
    obtain ⟨text, parsedPart⟩ := exists_of_mapM parsed part mem
    simp [parsedPart]
  have facts : ∀ part ∈ parts, (shellPart part).length ≤ (shownPart part).length ∧
        (shellPart part = shownPart part ↔ partHasEscape part = false) := by
    intro part mem
    obtain ⟨text, parsedPart⟩ := exists_of_mapM parsed part mem
    simpa [shownPart, parsedPart] using shellPart_of_parsePart parsedPart
  have joined : texts.flatMap String.toList = parts.flatMap shownPart := by
    rw [shown, flatMap_map]
    rfl
  rw [joined, flatMap_eq_flatMap_iff fun part mem => (facts part mem).1, any_eq_false]
  refine forall₂_congr fun part mem => ?_
  rw [eq_comm, (facts part mem).2, Bool.not_eq_true]

theorem parsePart_eq_some_shellPart_iff {part : Node} {text : String}
    (parsed : parsePart part = some text) :
    some text = some (String.ofList (shellPart part)) ↔ partHasEscape part = false := by
  rw [← (shellPart_of_parsePart parsed).2, Option.some.injEq,
    ← String.toList_inj, String.toList_ofList, eq_comm]

theorem parseChild_eq_some_shellWord_iff {child : Node} {word : String}
    (parsed : parseChild child = some word) :
    some word = some (String.ofList (shellWord child)) ↔ childHasEscape child = false := by
  unfold parseChild at parsed
  unfold shellWord childHasEscape
  split at parsed
  case h_1 =>
    cases children : child.namedChildren with
    | nil => simp [children] at parsed
    | cons wordNode others =>
      simp only [children, bne_iff_ne, ite_not] at parsed
      split_ifs at parsed with isWord
      refine parsePart_eq_some_shellPart_iff ?_
      simp only [parsePart, isWord]
      exact parsed
  case h_2 =>
    simp only [Option.bind_eq_bind, Option.bind_eq_some_iff] at parsed
    obtain ⟨texts, parsedParts, joined⟩ := parsed
    split_ifs at joined
    obtain rfl := Option.some.inj joined
    rw [← flatMap_shellPart_iff parsedParts, Option.some.injEq,
      ← String.toList_inj, String.toList_ofList, String.toList_join]
  case h_3 => exact parsePart_eq_some_shellPart_iff parsed

theorem parsePlainCommand_eq_shellArgv_iff {command : Node} {words : List String}
    (parsed : parsePlainCommandFromNode command = some words) :
    some words = some (shellArgv command) ↔ command.namedChildren.any childHasEscape = false := by
  unfold parsePlainCommandFromNode at parsed
  split_ifs at parsed
  rw [Option.some.injEq, shellArgv, eq_map_iff_of_mapM parsed, any_eq_false]
  refine forall₂_congr fun child mem => ?_
  obtain ⟨word, parsedChild⟩ := exists_of_mapM parsed child mem
  rw [parsedChild, parseChild_eq_some_shellWord_iff parsedChild, Bool.not_eq_true]

/--
The commands of an accepted script are the shell's exactly if the shell
removes no backslash of the script.
-/
theorem commands_eq_shellArgv_iff {tree : Tree} {commands : List (List String)}
    (accepted : tryParseWordOnlyCommandsSequence tree = some commands) :
    commands = (commandNodes tree).map shellArgv ↔ hasRemovedBackslash tree = false := by
  unfold tryParseWordOnlyCommandsSequence at accepted
  split_ifs at accepted
  rw [eq_map_iff_of_mapM accepted, hasRemovedBackslash, any_eq_false]
  refine forall₂_congr fun command mem => ?_
  obtain ⟨words, parsed⟩ := exists_of_mapM accepted command mem
  rw [parsed, parsePlainCommand_eq_shellArgv_iff parsed, Bool.not_eq_true]

end Codex.ShellCommand.BashWords
