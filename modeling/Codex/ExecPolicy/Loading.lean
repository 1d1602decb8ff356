import Codex.ExecPolicy.Rules
import Codex.Library.FirstOccurrences
import Mathlib.Data.List.Sort
import Mathlib.Data.String.Basic

/-!
# Loading an exec policy

The model of the loading part of `core/src/exec_policy.rs` and of the policy
builder of `execpolicy/src/parser.rs`.  The rules files of the config layers
are evaluated in order into one builder, and the managed requirements are
merged over the result.  A rules file that does not parse makes the loader
fall back to the empty policy.
-/

namespace Codex.ExecPolicy.Loading

open Rules Library.LongestPrefix Sandbox.Paths Policy List

/-! ## The builder -/

/-- A call that a rules file makes, with its arguments checked. -/
inductive BuilderCall where
  | prefixRule (first : PatternToken) (rest : List PatternToken)
      (decision : Decision) (justification : Option String)
      (positive negative : List (List String))
  | networkRule (rule : NetworkRule)
  | hostExecutable (name : String) (paths : List AbsolutePathBuf)
deriving DecidableEq

structure PendingExampleValidation where
  rules : List PrefixRule
  positive : List (List String)
  negative : List (List String)
deriving DecidableEq

structure PolicyBuilder where
  rulesByProgram : List (String × PrefixRule)
  networkRules : List NetworkRule
  hostExecutablesByName : List (String × List AbsolutePathBuf)
  pendingExampleValidations : List PendingExampleValidation
deriving DecidableEq

def PolicyBuilder.new : PolicyBuilder := ⟨[], [], [], []⟩

def keyed (rule : PrefixRule) : String × PrefixRule := (rule.pattern.first, rule)

variable (builder : PolicyBuilder)

def PolicyBuilder.apply : BuilderCall → PolicyBuilder
  | .prefixRule first rest decision justification positive negative =>
    let rules := first.alternatives.map fun head =>
      PrefixRule.mk ⟨head, rest⟩ decision justification
    { builder with
      rulesByProgram := builder.rulesByProgram ++ rules.map keyed
      pendingExampleValidations :=
        builder.pendingExampleValidations ++ [⟨rules, positive, negative⟩] }
  | .networkRule rule => { builder with networkRules := builder.networkRules ++ [rule] }
  | .hostExecutable name paths =>
    { builder with
      hostExecutablesByName := (name, paths) :: builder.hostExecutablesByName }

def PolicyBuilder.build : Policy :=
  ⟨builder.rulesByProgram, builder.networkRules, builder.hostExecutablesByName⟩

/-- The errors of `PolicyParser::parse`. -/
inductive PolicyParseError where
  | starlark (msg : String)
  | exampleDidNotMatch (rules : List PrefixRule) (examples : List (List String))
  | exampleDidMatch (rule : RuleMatch) (command : List String)
deriving DecidableEq

section Validation

variable (paths : Policy.ProcessPaths)

def validateNotMatchExamples (policy : Policy) : List (List String) → Except PolicyParseError Unit
  | [] => .ok ()
  | command :: commands =>
    match policy.matchesForCommandWithOptions paths command none true with
    | found :: _ => .error (.exampleDidMatch found command)
    | [] => validateNotMatchExamples policy commands

def validateMatchExamples (policy : Policy) (rules : List PrefixRule)
    (commands : List (List String)) : Except PolicyParseError Unit :=
  let unmatched := commands.filter fun command =>
    (policy.matchesForCommandWithOptions paths command none true).isEmpty
  if unmatched.isEmpty then .ok ()
  else .error (.exampleDidNotMatch rules unmatched)

def validateExamples (builder : PolicyBuilder) (validation : PendingExampleValidation) :
    Except PolicyParseError Unit := do
  let policy : Policy := ⟨validation.rules.map keyed, [], builder.hostExecutablesByName⟩
  validateNotMatchExamples paths policy validation.negative
  validateMatchExamples paths policy validation.rules validation.positive

/-- `PolicyParser::parse`, on the calls that the file makes. -/
def parseCalls (evaluated : Except String (List BuilderCall))
    (builder : PolicyBuilder) : Except PolicyParseError PolicyBuilder :=
  match evaluated with
  | .error msg => .error (.starlark msg)
  | .ok calls => do
    let extended := calls.foldl PolicyBuilder.apply builder
    let pending := extended.pendingExampleValidations.drop builder.pendingExampleValidations.length
    pending.forM (validateExamples paths extended)
    return extended

end Validation

/-! ## Config layers -/

inductive ConfigLayerSource where
  | mdm
  | system (file : AbsolutePathBuf)
  | user (file : AbsolutePathBuf)
  | project (dotCodexFolder : AbsolutePathBuf)
  | sessionFlags
  | legacyManagedConfigTomlFromFile
  | legacyManagedConfigTomlFromMdm
deriving DecidableEq

/-- The directory of a path, which the root does not have. -/
def parent (path : AbsolutePathBuf) : Option AbsolutePathBuf :=
  if path.isEmpty then none else some path.dropLast

def ConfigLayerSource.configFolder : ConfigLayerSource → Option AbsolutePathBuf
  | .system file => parent file
  | .user file => parent file
  | .project dotCodexFolder => some dotCodexFolder
  | _ => none

structure ConfigLayerEntry where
  name : ConfigLayerSource
  isDisabled : Bool
deriving DecidableEq

/-- `ConfigLayerStack`, with the layers in increasing precedence. -/
structure ConfigLayerStack where
  layers : List ConfigLayerEntry
  ignoreUserAndProjectExecPolicyRules : Bool
  /-- The exec policy of the managed requirements. -/
  requirementsExecPolicy : Option Policy
deriving DecidableEq

/-! ## Files -/

structure DirectoryEntry where
  fileName : String
  /-- `file_type().is_file()`, which may fail. -/
  isFile : Option Bool
deriving DecidableEq

inductive DirectoryListing where
  | notFound
  | failed
  | entries (found : List (Option DirectoryEntry))
deriving DecidableEq

/-- `ExecPolicyError`, for the errors of loading. -/
inductive ExecPolicyError where
  | readDir (dir : AbsolutePathBuf)
  | readFile (path : AbsolutePathBuf)
  | parsePolicy (path : String) (source : PolicyParseError)
deriving DecidableEq

/-- What loading reads from outside. -/
structure LoadEnvironment where
  paths : Policy.ProcessPaths
  readDirectory : AbsolutePathBuf → DirectoryListing
  readToString : AbsolutePathBuf → Option String
  /-- The Starlark run over a named rules file. -/
  evaluateRules : String → String → Except String (List BuilderCall)

/-- `Path::extension`: what follows the last dot that is not in front. -/
def extension (fileName : String) : Option String :=
  let reversed := fileName.toList.reverse
  let suffix := reversed.takeWhile fun char => char != '.'
  if suffix.length + 1 < reversed.length then some (String.ofList suffix.reverse)
  else none

variable (env : LoadEnvironment)

def collectEntries (dir : AbsolutePathBuf) : List (Option DirectoryEntry) →
      Except ExecPolicyError (List AbsolutePathBuf)
  | [] => .ok []
  | none :: _ => .error (.readDir dir)
  | some entry :: rest =>
    match entry.isFile with
    | none => .error (.readDir dir)
    | some isFile => do
      let found ← collectEntries dir rest
      if extension entry.fileName == some "rules" && isFile then
        return (dir ++ [entry.fileName]) :: found
      else return found

def collectPolicyFiles (dir : AbsolutePathBuf) : Except ExecPolicyError (List AbsolutePathBuf) :=
  match env.readDirectory dir with
  | .notFound => .ok []
  | .failed => .error (.readDir dir)
  | .entries found => do
    let paths ← collectEntries dir found
    return paths.insertionSort (· ≤ ·)

variable (stack : ConfigLayerStack)

def ConfigLayerStack.readsRules (layer : ConfigLayerEntry) : Bool :=
  !layer.isDisabled && !(stack.ignoreUserAndProjectExecPolicyRules && match layer.name with
      | .user _ => true
      | .project _ => true
      | _ => false)

/-- The rules files of the layers, lowest precedence first. -/
def collectLayerFiles : Except ExecPolicyError (List AbsolutePathBuf) := do
  let folders :=
    (stack.layers.filter stack.readsRules).filterMap fun layer => layer.name.configFolder
  let found ← folders.mapM fun folder => collectPolicyFiles env (folder ++ ["rules"])
  return found.flatten

/-- One turn of the parsing loop of `load_exec_policy`. -/
def parseFile (builder : PolicyBuilder) (path : AbsolutePathBuf) :
    Except ExecPolicyError PolicyBuilder :=
  match env.readToString path with
  | none => .error (.readFile path)
  | some contents =>
    match parseCalls env.paths
        (env.evaluateRules (toText path) contents) builder with
    | .error source => .error (.parsePolicy (toText path) source)
    | .ok extended => .ok extended

def loadLayerPolicy : Except ExecPolicyError Policy := do
  let policyPaths ← collectLayerFiles env stack
  let builder ←
    policyPaths.foldlM (parseFile env) PolicyBuilder.new
  return builder.build

def loadExecPolicy : Except ExecPolicyError Policy := do
  let policy ← loadLayerPolicy env stack
  match stack.requirementsExecPolicy with
  | none => return policy
  | some requirementsPolicy => return policy.mergeOverlay requirementsPolicy

def loadExecPolicyWithWarning : Except ExecPolicyError (Policy × Option ExecPolicyError) :=
  match loadExecPolicy env stack with
  | .ok policy => .ok (policy, none)
  | .error (.parsePolicy path source) => .ok (Policy.empty, some (.parsePolicy path source))
  | .error error => .error error

/-- `ExecPolicyManager::load`, with the policy that the manager holds. -/
def load : Except ExecPolicyError Policy := (loadExecPolicyWithWarning env stack).map Prod.fst

/-! ## What merged requirements forbid -/

variable (paths : Policy.ProcessPaths) (policy : Policy) (cmd : List String)

/-- A command is evaluated as forbidden whatever the fallback says. -/
def Forbids : Prop :=
  ∀ fallback, ∃ evaluation, policy.checkWithOptions paths cmd fallback true = some evaluation ∧
      evaluation.decision = .forbidden

theorem severity_forbidden_le_iff {decision : Decision} :
    Decision.forbidden.severity ≤ decision.severity ↔ decision = .forbidden := by
  cases decision <;> decide

theorem forbids_iff {paths : Policy.ProcessPaths} {policy : Policy} {cmd : List String} :
    Forbids paths policy cmd ↔ ∃ item ∈ policy.matchesForCommandWithOptions paths cmd none true,
        item.decision = .forbidden := by
  have enforced : policy.Enforces paths cmd .forbidden ↔ _ := enforces_iff paths (by decide)
  unfold Forbids
  simpa only [Policy.Enforces, severity_forbidden_le_iff] using enforced

/-- A policy lets a path to a program be looked up by its file name. -/
def AllowsNameLookup : Prop :=
  ∀ first ∈ cmd.head?, ∀ program ∈ Policy.programPath paths first,
    ∀ basename ∈ Policy.executablePathLookupKey program,
      ∀ listed ∈ policy.hostPaths basename, program ∈ listed

section Merged

variable {paths : Policy.ProcessPaths} {layers requirements : Policy} {cmd : List String}

theorem mem_exactMatches_mergeOverlay {found : RuleMatch} :
    found ∈ (layers.mergeOverlay requirements).exactMatches cmd ↔ found ∈ layers.exactMatches cmd ∨
        found ∈ requirements.exactMatches cmd := by
  cases cmd with
  | nil => simp [exactMatches, matchExactRules]
  | cons first arguments =>
    simp only [mem_exactMatches_iff, mem_rulesFor_iff,
      mergeOverlay, mem_append, or_and_right, exists_or]

theorem mem_hostMatches_iff {policy : Policy} {found : RuleMatch} :
    found ∈ policy.matchHostExecutableRules paths cmd ↔
      ∃ first arguments program basename, cmd = first :: arguments ∧
        programPath paths first = some program ∧
        executablePathLookupKey program = some basename ∧
        (∀ listed ∈ policy.hostPaths basename, program ∈ listed) ∧
        ∃ rule, (basename, rule) ∈ policy.rulesByProgram ∧
          ∃ original, rule.ruleMatch (basename :: arguments) =
            some original ∧ original.withResolvedProgram program = found := by
  unfold matchHostExecutableRules
  cases cmd with
  | nil => simp
  | cons first arguments =>
    dsimp only
    cases isProgram : programPath paths first with
    | none => simp [isProgram]
    | some program =>
      dsimp only
      cases key : executablePathLookupKey program with
      | none => simp [isProgram, key]
      | some basename =>
        have unlisted : (policy.hostPaths basename).any
                (fun listed => !listed.contains program) = true ↔
              ¬ ∀ listed ∈ policy.hostPaths basename, program ∈ listed := by
          cases policy.hostPaths basename <;> simp
        dsimp only
        by_cases allowed : ∀ listed ∈ policy.hostPaths basename, program ∈ listed
        · rw [if_neg (by rw [unlisted]; exact not_not.mpr allowed)]
          simp only [mem_map, mem_matchesOf_iff, mem_rulesFor_iff]
          constructor
          · rintro ⟨original, ⟨rule, isRule, matched⟩, rfl⟩
            exact ⟨first, arguments, program, basename, rfl, isProgram, key,
              allowed, rule, isRule, original, matched, rfl⟩
          · rintro ⟨_, _, _, _, same, samePath, sameKey, -, rule, isRule, original, matched, rfl⟩
            obtain ⟨rfl, rfl⟩ := List.cons.inj same
            obtain rfl := Option.some.inj (isProgram.symm.trans samePath)
            obtain rfl := Option.some.inj (key.symm.trans sameKey)
            exact ⟨original, ⟨rule, isRule, matched⟩, rfl⟩
        · rw [if_pos (unlisted.mpr allowed)]
          refine iff_of_false not_mem_nil ?_
          rintro ⟨_, _, _, _, same, samePath, sameKey, listed, -⟩
          obtain ⟨rfl, rfl⟩ := List.cons.inj same
          obtain rfl := Option.some.inj (isProgram.symm.trans samePath)
          obtain rfl := Option.some.inj (key.symm.trans sameKey)
          exact allowed listed

/--
Requirements without host executables that forbid a command are kept by the
merged policy exactly if they forbid it by its first word, or the layers
forbid it there too, or the layers say nothing there and let the program be
looked up by name.
-/
theorem forbids_mergeOverlay_iff (noHostExecutables : requirements.hostExecutablesByName = [])
    (forbidden : strictest
      (requirements.matchesForCommandWithOptions paths cmd none true) = some .forbidden) :
    Forbids paths (layers.mergeOverlay requirements) cmd ↔ requirements.exactMatches cmd ≠ [] ∨
        (∃ item ∈ layers.exactMatches cmd, item.decision = .forbidden) ∨
        (layers.exactMatches cmd = [] ∧ AllowsNameLookup paths layers cmd) := by
  obtain ⟨⟨found, mem, isForbidden⟩, -⟩ := strictest_spec forbidden
  have sameHosts : ∀ name, (layers.mergeOverlay requirements).hostPaths name =
        layers.hostPaths name := fun name => by
    simp [hostPaths, mergeOverlay, noHostExecutables]
  rw [forbids_iff, matchesForCommand_none]
  rw [matchesForCommand_none] at mem
  by_cases exact : requirements.exactMatches cmd = []
  · rw [if_pos exact] at mem
    simp only [exact, ne_eq, not_true_eq_false, false_or]
    have sameExact : ∀ item, item ∈ (layers.mergeOverlay requirements).exactMatches cmd ↔
          item ∈ layers.exactMatches cmd := fun item => by
      rw [mem_exactMatches_mergeOverlay, exact]
      simp
    by_cases unmatched : layers.exactMatches cmd = []
    · have noExact : (layers.mergeOverlay requirements).exactMatches cmd = [] := by
        rw [eq_nil_iff_forall_not_mem]
        intro item isMatch
        rw [sameExact, unmatched] at isMatch
        cases isMatch
      rw [if_pos noExact, unmatched]
      simp only [not_mem_nil, false_and, exists_false, false_or, true_and]
      constructor
      · -- A second-tier match shows that the layers allow the lookup.
        rintro ⟨item, isMatch, -⟩
        obtain ⟨first, arguments, program, basename, rfl, isProgram, key,
          listed, -⟩ := mem_hostMatches_iff.mp isMatch
        intro _ isFirst _ isPath _ isKey
        obtain rfl := Option.some.inj isFirst
        obtain rfl := Option.some.inj (isProgram.symm.trans isPath)
        obtain rfl := Option.some.inj (key.symm.trans isKey)
        rwa [sameHosts] at listed
      · intro allowed
        obtain ⟨first, arguments, program, basename, rfl, isProgram, key, -,
          rule, isRule, original, matched, rfl⟩ :=
          mem_hostMatches_iff.mp mem
        refine ⟨_, mem_hostMatches_iff.mpr ⟨first, arguments, program,
          basename, rfl, isProgram, key, ?_, rule,
          mem_append_right _ isRule, original, matched, rfl⟩,
          isForbidden⟩
        rw [sameHosts]
        exact allowed first rfl program isProgram basename key
    · have hidden : (layers.mergeOverlay requirements).exactMatches cmd ≠ [] := by
        obtain ⟨item, isMatch⟩ := exists_mem_of_ne_nil _ unmatched
        exact ne_nil_of_mem ((sameExact item).mpr isMatch)
      rw [if_neg hidden]
      simp only [sameExact, unmatched, false_and, or_false]
  · rw [if_neg exact] at mem
    have kept : found ∈ (layers.mergeOverlay requirements).exactMatches cmd :=
      mem_exactMatches_mergeOverlay.mpr (.inr mem)
    rw [if_neg (ne_nil_of_mem kept)]
    exact iff_of_true ⟨found, kept, isForbidden⟩ (.inl exact)

end Merged

theorem not_forbids_empty : ¬ Forbids paths empty cmd := by
  rw [forbids_iff, matchesForCommand_none]
  rintro ⟨item, mem, -⟩
  split at mem
  · obtain ⟨_, _, _, _, -, -, -, -, rule, isRule, -⟩ := mem_hostMatches_iff.mp mem
    exact nomatch isRule
  · cases cmd <;> exact nomatch mem

/-! ## Loading with requirements -/

theorem load_eq (env : LoadEnvironment) {stack : ConfigLayerStack} {requirements : Policy}
    (managed : stack.requirementsExecPolicy = some requirements) :
    load env stack = match loadLayerPolicy env stack with
      | .ok layers => .ok (layers.mergeOverlay requirements)
      | .error (.parsePolicy _ _) => .ok empty
      | .error error => .error error := by
  unfold load loadExecPolicyWithWarning loadExecPolicy
  rw [managed]
  cases loadLayerPolicy env stack with
  | ok layers => rfl
  | error error => cases error <;> rfl

/--
A command that the managed requirements forbid is forbidden by the policy
that was loaded exactly if the rules files of the layers parse, and what they
say about the command does not hide the requirements.
-/
theorem requirements_survive_loading_iff (env : LoadEnvironment) (stack : ConfigLayerStack)
    (requirements loaded : Policy) (cmd : List String)
    (managed : stack.requirementsExecPolicy = some requirements)
    (noHostExecutables : requirements.hostExecutablesByName = [])
    (loads : load env stack = .ok loaded)
    (forbidden : strictest (requirements.matchesForCommandWithOptions env.paths cmd none
        true) = some .forbidden) :
    Forbids env.paths loaded cmd ↔
      ∃ layers, loadLayerPolicy env stack = .ok layers ∧
        (requirements.exactMatches cmd ≠ [] ∨
          (∃ item ∈ layers.exactMatches cmd, item.decision = .forbidden) ∨
          (layers.exactMatches cmd = [] ∧ AllowsNameLookup env.paths layers cmd)) := by
  rw [load_eq env managed] at loads
  cases found : loadLayerPolicy env stack with
  | ok layers =>
    rw [found] at loads
    obtain rfl := Except.ok.inj loads
    rw [forbids_mergeOverlay_iff noHostExecutables forbidden]
    simp
  | error error =>
    rw [found] at loads
    cases error with
    | readDir | readFile => exact nomatch loads
    | parsePolicy path source =>
      obtain rfl := Except.ok.inj loads
      simp [not_forbids_empty]

/-- Starlark on a rule about `ls`; other texts do not parse. -/
def evaluateLsRule (text : String) : Except String (List BuilderCall) :=
  if text = "prefix_rule(pattern=[\"ls\"], decision=\"allow\")\n" then
    .ok [.prefixRule (.single "ls") [] .allow none [] []]
  else .error "parse error"

/-- A project with one rules file. -/
def projectEnvironment (rules : String) : LoadEnvironment where
  paths := ⟨none, none⟩
  readDirectory := fun dir =>
    if dir == ["p", ".codex", "rules"] then .entries [some ⟨"a.rules", some true⟩]
    else .notFound
  readToString := fun _ => some rules
  evaluateRules := fun _ => evaluateLsRule

/-- A trusted project under managed requirements that forbid `git`. -/
def managedProject : ConfigLayerStack where
  layers := [⟨.project ["p", ".codex"], false⟩]
  ignoreUserAndProjectExecPolicyRules := false
  requirementsExecPolicy := some Policy.forbidsGit

def allowsLs : Policy := ⟨[("ls", ⟨⟨"ls", []⟩, .allow, none⟩)], [], []⟩

/-- With rules about other programs the requirement holds. -/
theorem requirement_survives_other_rules :
    let env := projectEnvironment "prefix_rule(pattern=[\"ls\"], decision=\"allow\")\n"
    let loaded := allowsLs.mergeOverlay Policy.forbidsGit
    load env managedProject = .ok loaded ∧
      Forbids env.paths loaded ["git", "push"] := by
  refine ⟨rfl, ?_⟩
  exact (requirements_survive_loading_iff (projectEnvironment _)
    managedProject forbidsGit _ ["git", "push"] rfl rfl rfl
    (by decide +kernel)).mpr ⟨allowsLs, rfl, .inl (by decide +kernel)⟩

/-- A rules file of a project that does not parse lifts the requirement. -/
theorem requirement_lost_on_parse_error :
    strictest (Policy.forbidsGit.matchesForCommandWithOptions ⟨none, none⟩
        ["git", "push"] none true) = some .forbidden ∧
      load (projectEnvironment "prefix_rule(pattern=[\"ls\"\n") managedProject = .ok Policy.empty ∧
      Policy.empty.checkWithOptions ⟨none, none⟩ ["git", "push"] (fun _ => .allow) true =
        some ⟨.allow, [.heuristicsRuleMatch ["git", "push"] .allow]⟩ := by
  refine ⟨by decide +kernel, rfl, by decide +kernel⟩

end Codex.ExecPolicy.Loading
