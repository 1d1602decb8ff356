import Codex.Sandbox.Paths
import Codex.ShellCommand.BashWords

/-!
# The safelist

The model of `command_safety/is_safe_command.rs` and of what it takes from
`is_dangerous_command.rs` and `shell_detect.rs`, as they are built for Unix:
which argument vectors run without asking, and which shell scripts do.  The
Bash grammar is a parameter.
-/

namespace Codex.ShellCommand.SafeCommands

open Rust.Text Sandbox.Paths BashWords

/-! ## Executables and shells -/

def fileName (path : String) : Option String :=
  match (parsePath path).components.getLast? with
  | some (.normal name) => some name
  | _ => none

def executableNameLookupKey (raw : String) : Option String := fileName raw

def fileStem (path : String) : Option String := (fileName path).map fun name =>
    let reversed := name.toList.reverse
    match reversed.dropWhile (· != '.') with
    | [] => name
    | [_] => name
    | _ :: stem => String.ofList stem.reverse

inductive ShellType where
  | zsh
  | bash
  | powerShell
  | sh
  | cmd
deriving DecidableEq

/-- `detect_shell_type`, following at most so many stems. -/
def detectShellTypeWithin : Nat → String → Option ShellType
  | _, "zsh" => some .zsh
  | _, "sh" => some .sh
  | _, "cmd" => some .cmd
  | _, "bash" => some .bash
  | _, "pwsh" => some .powerShell
  | _, "powershell" => some .powerShell
  | 0, _ => none
  | bound + 1, shellPath =>
    match fileStem shellPath with
    | some shellName =>
      if parsePath shellName = parsePath shellPath then none
      else detectShellTypeWithin bound shellName
    | none => none

/-- `detect_shell_type`: every stem that is followed is shorter. -/
def detectShellType (shellPath : String) : Option ShellType :=
  detectShellTypeWithin shellPath.length shellPath

def extractBashCommand : List String → Option (String × String)
  | [shell, flag, script] =>
    if !(flag == "-lc" || flag == "-c") ||
        !([some .zsh, some .bash, some .sh].contains (detectShellType shell)) then none
    else some (shell, script)
  | _ => none

def parseShellLcPlainCommands (tryParseShell : String → Option Tree)
    (command : List String) : Option (List (List String)) := do
  let (_, script) ← extractBashCommand command
  let tree ← tryParseShell script
  tryParseWordOnlyCommandsSequence tree

variable (argument : String)

/-! ## Git -/

def isGitGlobalOptionWithValue : Bool :=
  ["-C", "-c", "--config-env", "--exec-path", "--git-dir", "--namespace",
    "--super-prefix", "--work-tree"].contains argument

def isGitGlobalOptionWithInlineValue : Bool :=
  (["--config-env=", "--exec-path=", "--git-dir=", "--namespace=",
      "--super-prefix=", "--work-tree="].any fun option =>
    startsWith argument option) ||
  ((startsWith argument "-C" || startsWith argument "-c") &&
    argument.utf8ByteSize > 2)

/-- The scan of `find_git_subcommand` from an index on. -/
def findGitSubcommandFrom (subcommands : List String) :
    Bool → Nat → List String → Option (Nat × String)
  | _, _, [] => none
  | true, index, _ :: args => findGitSubcommandFrom subcommands false (index + 1) args
  | false, index, argument :: args =>
    if isGitGlobalOptionWithInlineValue argument then
      findGitSubcommandFrom subcommands false (index + 1) args
    else if isGitGlobalOptionWithValue argument then
      findGitSubcommandFrom subcommands true (index + 1) args
    else if argument == "--" || startsWith argument "-" then
      findGitSubcommandFrom subcommands false (index + 1) args
    else if subcommands.contains argument then some (index, argument)
    else none

def findGitSubcommand (command subcommands : List String) : Option (Nat × String) :=
  match command with
  | [] => none
  | program :: args =>
    if executableNameLookupKey program != some "git" then none
    else findGitSubcommandFrom subcommands false 1 args

inductive GitOptionPattern where
  | exact (option : String)
  | shortWithInlineValue (option : String)
  | leading (option : String)

def GitOptionPattern.matchesArgument : GitOptionPattern → Bool
  | .exact option => argument == option
  | .shortWithInlineValue option =>
    startsWith argument option && argument.utf8ByteSize > option.utf8ByteSize
  | .leading option => startsWith argument option

def unsafeGitGlobalOptions : List GitOptionPattern :=
  [.exact "-C", .shortWithInlineValue "-C", .exact "-c",
    .shortWithInlineValue "-c", .exact "-p", .exact "--config-env",
    .leading "--config-env=", .exact "--exec-path", .leading "--exec-path=",
    .exact "--git-dir", .leading "--git-dir=", .exact "--namespace",
    .leading "--namespace=", .exact "--paginate", .exact "--super-prefix",
    .leading "--super-prefix=", .exact "--work-tree",
    .leading "--work-tree="]

def unsafeGitSubcommandOptions : List GitOptionPattern :=
  [.exact "--output", .leading "--output=", .exact "--ext-diff",
    .exact "--textconv", .exact "--exec", .leading "--exec="]

def gitMatchesOptionPattern (patterns : List GitOptionPattern) : Bool :=
  patterns.any (·.matchesArgument argument)

def gitHasUnsafeGlobalOption (globalArguments : List String) : Bool :=
  globalArguments.any fun argument => gitMatchesOptionPattern argument unsafeGitGlobalOptions

def gitSubcommandArgsAreReadOnly (args : List String) : Bool := !args.any fun argument =>
    gitMatchesOptionPattern argument unsafeGitSubcommandOptions

/-- An argument that `git_branch_is_read_only` lets pass. -/
def isReadOnlyBranchFlag : Bool :=
  ["--list", "-l", "--show-current", "-a", "--all", "-r", "--remotes", "-v",
    "-vv", "--verbose"].contains argument || startsWith argument "--format="

def gitBranchIsReadOnly (branchArguments : List String) : Bool :=
  -- A scan of some arguments that ends has seen a read-only flag.
  branchArguments.isEmpty || branchArguments.all isReadOnlyBranchFlag

def isSafeGitCommand (command : List String) : Bool :=
  match findGitSubcommand command
      ["status", "log", "diff", "show", "branch"] with
  | none => false
  | some (subcommandIndex, subcommand) =>
    let globalArguments := (command.take subcommandIndex).drop 1
    if gitHasUnsafeGlobalOption globalArguments then false
    else
      let subcommandArguments := command.drop (subcommandIndex + 1)
      if subcommand == "branch" then
        gitSubcommandArgsAreReadOnly subcommandArguments && gitBranchIsReadOnly subcommandArguments
      else gitSubcommandArgsAreReadOnly subcommandArguments

/-! ## Argument vectors -/

def isNumber (text : List Char) : Bool := !text.isEmpty && text.all fun char =>
    decide ('0' ≤ char) && decide (char ≤ '9')

def isValidSedNArg : Option String → Bool
  | none => false
  | some text =>
    if text.toList.getLast? = some 'p' then
      match text.toList.dropLast.splitOn ',' with
      | [number] => isNumber number
      | [first, second] => isNumber first && isNumber second
      | _ => false
    else false

def alwaysSafe : List String :=
  ["cat", "cd", "cut", "echo", "expr", "false", "grep", "head", "id", "ls",
    "nl", "paste", "pwd", "rev", "seq", "stat", "tail", "tr", "true", "uname",
    "uniq", "wc", "which", "whoami"]

def unsafeFindOptions : List String :=
  ["-exec", "-execdir", "-ok", "-okdir", "-delete", "-fls", "-fprint", "-fprint0", "-fprintf"]

/-- An argument that makes `base64` write a file. -/
def isUnsafeBase64Option : Bool :=
  ["-o", "--output"].contains argument || startsWith argument "--output=" ||
    (startsWith argument "-o" && argument != "-o")

/-- An argument that makes ripgrep run another program. -/
def isUnsafeRipgrepOption : Bool :=
  ["--search-zip", "-z"].contains argument ||
    ["--pre", "--hostname-bin"].any fun option =>
      argument == option || startsWith argument (option ++ "=")

variable (tryParseShell : String → Option Tree) (script : String)

section TargetSystem

variable (onLinux : Bool)

def isSafeToCallWithExec (command : List String) : Bool :=
  match command with
  | [] => false
  | program :: args =>
    match executableNameLookupKey program with
    | none => false
    | some name =>
      if onLinux && ["numfmt", "tac"].contains name then true
      else if alwaysSafe.contains name then true
      else
        match name with
        | "base64" => !args.any isUnsafeBase64Option
        | "find" => !command.any unsafeFindOptions.contains
        | "rg" => !command.any isUnsafeRipgrepOption
        | "git" => isSafeGitCommand command
        | "sed" => command.length ≤ 4 && command[1]? == some "-n" && isValidSedNArg command[2]?
        | _ => false

def isKnownSafeCommand (tryParseShell : String → Option Tree) (command : List String) : Bool :=
  let command := command.map fun word => if word == "zsh" then "bash" else word
  if isSafeToCallWithExec onLinux command then true
  else
    match parseShellLcPlainCommands tryParseShell command with
    | some allCommands => !allCommands.isEmpty && allCommands.all (isSafeToCallWithExec onLinux)
    | none => false

/-! ## Scripts that are accepted -/

theorem isSafeToCallWithExec_bash (args : List String) :
    isSafeToCallWithExec onLinux ("bash" :: args) = false := by
  have key : executableNameLookupKey "bash" = some "bash" := by decide +kernel
  simp [isSafeToCallWithExec, key, alwaysSafe]

theorem parseShellLcPlainCommands_bash :
    parseShellLcPlainCommands tryParseShell ["bash", "-lc", script] =
      (tryParseShell script).bind tryParseWordOnlyCommandsSequence := by
  have isBash : detectShellType "bash" = some .bash := by decide +kernel
  simp [parseShellLcPlainCommands, extractBashCommand, isBash]

/--
The grammar takes the script that is the one word for the word itself.  The
safelist parses it in place of the script that is the word for the other shell.
-/
def ParsesBash : Prop :=
  ∀ tree, tryParseShell "bash" = some tree → tryParseWordOnlyCommandsSequence tree = some [["bash"]]

variable {onLinux}

theorem all_safe_of_isKnownSafeCommand {tryParseShell : String → Option Tree}
    (parsesBash : ParsesBash tryParseShell)
    {script : String} {tree : Tree} {commands : List (List String)}
    (parsed : tryParseShell script = some tree)
    (accepted : tryParseWordOnlyCommandsSequence tree = some commands)
    (known : isKnownSafeCommand onLinux tryParseShell ["bash", "-lc", script] = true) :
    ∀ words ∈ commands, isSafeToCallWithExec onLinux words = true := by
  unfold isKnownSafeCommand at known
  by_cases isZsh : script = "zsh"
  · -- The judged script is then the word `bash`, which is not safe.
    subst isZsh
    have renamed : (["bash", "-lc", "zsh"].map fun word =>
        if word == "zsh" then "bash" else word) = ["bash", "-lc", "bash"] := by decide
    rw [renamed] at known
    simp only [isSafeToCallWithExec_bash, parseShellLcPlainCommands_bash] at known
    cases bashTree : tryParseShell "bash" with
    | none => simp [bashTree] at known
    | some tree => simp [bashTree, parsesBash tree bashTree, isSafeToCallWithExec_bash] at known
  · have kept : (["bash", "-lc", script].map fun word =>
        if word == "zsh" then "bash" else word) = ["bash", "-lc", script] := by
      simp [isZsh]
    rw [kept] at known
    simp only [isSafeToCallWithExec_bash, parseShellLcPlainCommands_bash,
      parsed, Option.bind_some, accepted] at known
    simp only [Bool.false_eq_true, if_false, Bool.and_eq_true, List.all_eq_true] at known
    exact known.2

variable (onLinux)

end TargetSystem

/-! ## Two scripts -/

def commandTree (script name : String) (args : List Node) : Tree :=
  ⟨.mk "program" true script 0 [.mk "command" true script 0
      (.mk "command_name" true name 0 [.mk "word" true name 0 []] ::
        args)], false⟩

def bashTree : Tree := commandTree "bash" "bash" []

/-- The script `ls "a b"`. -/
def quotedTree : Tree := commandTree "ls \"a b\"" "ls" [.mk "string" true "\"a b\"" 3
      [.mk "\"" false "\"" 3 [], .mk "string_content" true "a b" 4 [], .mk "\"" false "\"" 7 []]]

/-- The script `find . -del\ete`. -/
def escapedTree : Tree := commandTree "find . -del\\ete" "find"
    [.mk "word" true "." 5 [], .mk "word" true "-del\\ete" 7 []]

def grammar : Option Tree :=
  if script = "bash" then some bashTree
  else if script = "ls \"a b\"" then some quotedTree
  else if script = "find . -del\\ete" then some escapedTree
  else none

theorem grammar_parsesBash : ParsesBash grammar := by
  intro tree parsed
  obtain rfl : bashTree = tree := Option.some.inj parsed
  decide +kernel

end Codex.ShellCommand.SafeCommands
