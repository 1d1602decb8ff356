import Codex.Library.LongestPrefix
import Codex.Sandbox.Paths

/-!
# Exec policies

The model of `execpolicy/src/policy.rs` and `rule.rs`: prefix rules stored
under the name of a program, and the lookup of the rules that match a command.
The lookup has two tiers.  Rules stored under the first word of the command
are tried first; only when none of them matches may a path to a program be
looked up under its file name.
-/

namespace Codex.ExecPolicy.Rules

open Library.LongestPrefix Sandbox.Paths List

/-! ## Rules -/

inductive Decision where
  | allow
  | prompt
  | forbidden
deriving DecidableEq

def Decision.severity : Decision → Nat
  | .allow => 0
  | .prompt => 1
  | .forbidden => 2

inductive PatternToken where
  | single (expected : String)
  | alts (alternatives : List String)
deriving DecidableEq

namespace PatternToken

def isMatch (token : String) : PatternToken → Bool
  | .single expected => expected == token
  | .alts alternatives => alternatives.any fun alternative => alternative == token

def alternatives : PatternToken → List String
  | .single expected => [expected]
  | .alts alternatives => alternatives

end PatternToken

structure PrefixPattern where
  first : String
  rest : List PatternToken
deriving DecidableEq

def PrefixPattern.matchesPrefix
    (pattern : PrefixPattern) (cmd : List String) : Option (List String) :=
  let patternLength := pattern.rest.length + 1
  match cmd with
  | [] => none
  | first :: args =>
    if cmd.length < patternLength || first != pattern.first then none
    else if (pattern.rest.zip args).all fun pair =>
        pair.1.isMatch pair.2 then some (cmd.take patternLength)
    else none

/-- `PrefixRule`, the only kind of rule. -/
structure PrefixRule where
  pattern : PrefixPattern
  decision : Decision
  justification : Option String
deriving DecidableEq

inductive RuleMatch where
  | prefixRuleMatch (matchedPrefix : List String) (decision : Decision)
      (resolvedProgram : Option AbsolutePathBuf)
      (justification : Option String)
  | heuristicsRuleMatch (command : List String) (decision : Decision)
deriving DecidableEq

variable (program : AbsolutePathBuf)

namespace RuleMatch

def decision : RuleMatch → Decision
  | .prefixRuleMatch _ decision _ _ => decision
  | .heuristicsRuleMatch _ decision => decision

def withResolvedProgram : RuleMatch → RuleMatch
  | .prefixRuleMatch matchedPrefix decision _ justification =>
    .prefixRuleMatch matchedPrefix decision (some program) justification
  | other => other

end RuleMatch

/-- `Rule::matches` of a prefix rule. -/
def PrefixRule.ruleMatch (rule : PrefixRule) (cmd : List String) : Option RuleMatch :=
  (rule.pattern.matchesPrefix cmd).map fun matchedPrefix =>
    .prefixRuleMatch matchedPrefix rule.decision none rule.justification

inductive NetworkRuleProtocol where
  | http
  | https
  | socks5Tcp
  | socks5Udp
deriving DecidableEq

structure NetworkRule where
  host : String
  protocol : NetworkRuleProtocol
  decision : Decision
  justification : Option String
deriving DecidableEq

/-! ## Policies -/

/--
`Policy`.  The map from programs to rules is the list of its insertions, and
a host executable entry hides later ones of its name.
-/
structure Policy where
  rulesByProgram : List (String × PrefixRule)
  networkRules : List NetworkRule
  hostExecutablesByName : List (String × List AbsolutePathBuf)
deriving DecidableEq

namespace Policy

def empty : Policy := ⟨[], [], []⟩

variable (policy : Policy)

def rulesFor (program : String) : List PrefixRule :=
  (policy.rulesByProgram.filter fun entry => entry.1 == program).map Prod.snd

def hostPaths (name : String) : Option (List AbsolutePathBuf) :=
  policy.hostExecutablesByName.lookup name

/-- `Policy::add_prefix_rule`; the message of its error. -/
def addPrefixRule (tokens : List String) (decision : Decision) : Except String Policy :=
  match tokens with
  | [] => .error "prefix cannot be empty"
  | first :: rest =>
    .ok { policy with
        rulesByProgram := policy.rulesByProgram ++
            [(first, ⟨⟨first, rest.map .single⟩, decision, none⟩)] }

def mergeOverlay (policy overlay : Policy) : Policy :=
  { rulesByProgram := policy.rulesByProgram ++ overlay.rulesByProgram
    networkRules := policy.networkRules ++ overlay.networkRules
    hostExecutablesByName := overlay.hostExecutablesByName ++ policy.hostExecutablesByName }

/-! ## Lookup -/

def matchesOf (rules : List PrefixRule) (cmd : List String) : List RuleMatch :=
  rules.filterMap fun rule => rule.ruleMatch cmd

def matchExactRules (cmd : List String) : Option (List RuleMatch) :=
  cmd.head?.map fun first => matchesOf (policy.rulesFor first) cmd

/-- The directories that a relative program path is resolved with. -/
structure ProcessPaths where
  homeDirectory : Option AbsolutePathBuf
  currentDirectory : Option AbsolutePathBuf

/-- The path that the first word of a command spells. -/
def programPath (paths : ProcessPaths) (first : String) : Option AbsolutePathBuf :=
  fromAbsolutePath paths.homeDirectory paths.currentDirectory (parsePath first)

def executablePathLookupKey : Option String := program.getLast?

variable (paths : ProcessPaths)

def matchHostExecutableRules (policy : Policy) (cmd : List String) : List RuleMatch :=
  match cmd with
  | [] => []
  | first :: args =>
    match programPath paths first with
    | none => []
    | some program =>
      match executablePathLookupKey program with
      | none => []
      | some basename =>
        if (policy.hostPaths basename).any fun listed => !listed.contains program then []
        else
          (matchesOf (policy.rulesFor basename) (basename :: args)).map
            (RuleMatch.withResolvedProgram program)

def matchesForCommandWithOptions (policy : Policy) (cmd : List String)
    (heuristicsFallback : Option (List String → Decision))
    (resolveHostExecutables : Bool) : List RuleMatch :=
  let matchedRules :=
    (((policy.matchExactRules cmd).filter fun found => !found.isEmpty).or
      ((if resolveHostExecutables then
          some (policy.matchHostExecutableRules paths cmd)
        else none).filter fun found => !found.isEmpty)).getD []
  match matchedRules, heuristicsFallback with
  | [], some fallback => [.heuristicsRuleMatch cmd (fallback cmd)]
  | matchedRules, _ => matchedRules

end Policy

structure Evaluation where
  decision : Decision
  matchedRules : List RuleMatch
deriving DecidableEq

variable (matchedRules : List RuleMatch)

def strictest : Option Decision := maxByKey Decision.severity (matchedRules.map RuleMatch.decision)

/-- `Evaluation::from_matches`, which panics without matches. -/
def Evaluation.fromMatches : Option Evaluation :=
  (strictest matchedRules).map fun decision => ⟨decision, matchedRules⟩

def Policy.checkWithOptions (paths : Policy.ProcessPaths) (policy : Policy) (cmd : List String)
    (heuristicsFallback : List String → Decision)
    (resolveHostExecutables : Bool) : Option Evaluation :=
  Evaluation.fromMatches (policy.matchesForCommandWithOptions paths cmd (some heuristicsFallback)
      resolveHostExecutables)

/-! ## Decisions -/

section Decisions

variable {matchedRules : List RuleMatch} {decision : Decision}

theorem strictest_spec (found : strictest matchedRules = some decision) :
    (∃ item ∈ matchedRules, item.decision = decision) ∧
      ∀ item ∈ matchedRules, item.decision.severity ≤ decision.severity := by
  obtain ⟨mem, largest⟩ := maxByKey_spec _ found
  exact ⟨mem_map.mp mem, fun item isMatch => largest _ (mem_map_of_mem isMatch)⟩

theorem strictest_reaches_iff : (∃ reached, strictest matchedRules = some reached ∧
      decision.severity ≤ reached.severity) ↔
      ∃ item ∈ matchedRules, decision.severity ≤ item.decision.severity := by
  constructor
  · rintro ⟨reached, found, reaches⟩
    obtain ⟨⟨item, mem, rfl⟩, -⟩ := strictest_spec found
    exact ⟨item, mem, reaches⟩
  · rintro ⟨item, mem, reaches⟩
    cases found : strictest matchedRules with
    | none =>
      have none := (maxByKey_eq_none_iff _).mp found
      rw [map_eq_nil_iff] at none
      rw [none] at mem
      exact nomatch mem
    | some reached => exact ⟨reached, rfl, reaches.trans ((strictest_spec found).2 item mem)⟩

end Decisions

namespace Policy

variable (paths : ProcessPaths) (policy : Policy) (cmd : List String)

/-- The matches under the first word of a command. -/
def exactMatches : List RuleMatch := (policy.matchExactRules cmd).getD []

theorem matchesForCommand_none :
    policy.matchesForCommandWithOptions paths cmd none true = if policy.exactMatches cmd = [] then
        policy.matchHostExecutableRules paths cmd
      else policy.exactMatches cmd := by
  unfold matchesForCommandWithOptions exactMatches
  cases policy.matchExactRules cmd with
  | none => cases policy.matchHostExecutableRules paths cmd <;> rfl
  | some exact =>
    cases exact with
    | nil => cases policy.matchHostExecutableRules paths cmd <;> rfl
    | cons first rest => rfl

theorem matchesForCommand_some (fallback : List String → Decision) :
    policy.matchesForCommandWithOptions paths cmd (some fallback) true =
      if policy.matchesForCommandWithOptions paths cmd none true = [] then
        [.heuristicsRuleMatch cmd (fallback cmd)]
      else policy.matchesForCommandWithOptions paths cmd none true := by
  unfold matchesForCommandWithOptions
  generalize (((policy.matchExactRules cmd).filter
    fun found => !found.isEmpty).or _).getD [] = matchedRules
  cases matchedRules <;> rfl

/-- Whether the evaluation of a command is at least as strict as a decision. -/
def Enforces (decision : Decision) : Prop :=
  ∀ fallback, ∃ evaluation, policy.checkWithOptions paths cmd fallback true = some evaluation ∧
      decision.severity ≤ evaluation.decision.severity

variable {cmd : List String} {found : RuleMatch}

/--
A decision above the weakest is enforced, whatever the fallback, exactly if a
rule that is found reaches it.
-/
theorem enforces_iff {policy : Policy} {decision : Decision} (strict : decision ≠ .allow) :
    policy.Enforces paths cmd decision ↔
      ∃ item ∈ policy.matchesForCommandWithOptions paths cmd none true,
        decision.severity ≤ item.decision.severity := by
  have reaches : ∀ fallback, (∃ evaluation,
        policy.checkWithOptions paths cmd fallback true = some evaluation ∧
          decision.severity ≤ evaluation.decision.severity) ↔
        ∃ item ∈ policy.matchesForCommandWithOptions paths cmd (some fallback) true,
          decision.severity ≤ item.decision.severity := by
    intro fallback
    rw [← strictest_reaches_iff]
    unfold checkWithOptions Evaluation.fromMatches
    constructor
    · rintro ⟨evaluation, found, reached⟩
      obtain ⟨strongest, isStrictest, rfl⟩ := Option.map_eq_some_iff.mp found
      exact ⟨strongest, isStrictest, reached⟩
    · rintro ⟨strongest, isStrictest, reached⟩
      exact ⟨_, Option.map_eq_some_iff.mpr ⟨strongest, isStrictest, rfl⟩, reached⟩
  unfold Enforces
  simp only [reaches, matchesForCommand_some]
  by_cases unmatched : policy.matchesForCommandWithOptions paths cmd none true = []
  · simp only [unmatched, if_true, mem_singleton, exists_eq_left, not_mem_nil,
      false_and, exists_false, iff_false, not_forall]
    refine ⟨fun _ => .allow, ?_⟩
    cases decision with
    | allow => exact absurd rfl strict
    | prompt | forbidden => simp [RuleMatch.decision, Decision.severity]
  · simp only [if_neg unmatched]
    exact ⟨fun enforced => enforced fun _ => .allow, fun reached _ => reached⟩

/-- The weakest decision is always enforced: some match is found or made. -/
theorem enforces_allow (cmd : List String) : policy.Enforces paths cmd .allow := by
  intro fallback
  unfold checkWithOptions Evaluation.fromMatches
  cases found : strictest (policy.matchesForCommandWithOptions paths cmd (some fallback) true) with
  | some decision => exact ⟨_, rfl, Nat.zero_le _⟩
  | none =>
    have none := (maxByKey_eq_none_iff _).mp found
    rw [map_eq_nil_iff, matchesForCommand_some] at none
    split at none
    · exact nomatch none
    next matched => exact absurd none matched

/-! ## Growing a policy -/

/-- What a policy gains when rules are added and nothing else changes. -/
structure Grows (policy : Policy) (added : List (String × PrefixRule))
    (grown : Policy) : Prop where
  mem_iff : ∀ program rule, rule ∈ grown.rulesFor program ↔
    rule ∈ policy.rulesFor program ∨ (program, rule) ∈ added
  hostPaths_eq : ∀ name, grown.hostPaths name = policy.hostPaths name

theorem mem_rulesFor_iff {policy : Policy} {program : String} {rule : PrefixRule} :
    rule ∈ policy.rulesFor program ↔ (program, rule) ∈ policy.rulesByProgram := by
  simp [rulesFor]

theorem mem_matchesOf_iff {rules : List PrefixRule} :
    found ∈ matchesOf rules cmd ↔ ∃ rule ∈ rules, rule.ruleMatch cmd = some found :=
  mem_filterMap

theorem mem_exactMatches_iff {policy : Policy} {first : String} {args : List String} :
    found ∈ policy.exactMatches (first :: args) ↔ ∃ rule ∈ policy.rulesFor first,
        rule.ruleMatch (first :: args) = some found :=
  mem_matchesOf_iff

/-- The added rules that match a command under its first word. -/
def addedMatches (added : List (String × PrefixRule)) (cmd : List String) : List RuleMatch :=
  (⟨added, [], []⟩ : Policy).exactMatches cmd

variable {policy grown : Policy} {added : List (String × PrefixRule)}

theorem Grows.mem_exactMatches (grows : Grows policy added grown) : found ∈ grown.exactMatches cmd ↔
      found ∈ policy.exactMatches cmd ∨ found ∈ addedMatches added cmd := by
  cases cmd with
  | nil => simp [addedMatches, exactMatches, matchExactRules]
  | cons first args =>
    rw [addedMatches, mem_exactMatches_iff, mem_exactMatches_iff, mem_exactMatches_iff]
    simp only [grows.mem_iff, mem_rulesFor_iff, or_and_right, exists_or]

theorem Grows.mem_hostMatches (grows : Grows policy added grown)
    (mem : found ∈ policy.matchHostExecutableRules paths cmd) :
    found ∈ grown.matchHostExecutableRules paths cmd := by
  unfold matchHostExecutableRules at mem ⊢
  cases cmd with
  | nil => exact mem
  | cons first args =>
    dsimp only at mem ⊢
    cases isProgram : programPath paths first with
    | none =>
      rw [isProgram] at mem
      exact nomatch mem
    | some program =>
      rw [isProgram] at mem
      dsimp only at mem ⊢
      cases key : executablePathLookupKey program with
      | none =>
        rw [key] at mem
        exact nomatch mem
      | some basename =>
        rw [key] at mem
        dsimp only at mem ⊢
        rw [grows.hostPaths_eq]
        split at mem
        · exact nomatch mem
        next listed =>
          rw [if_neg listed]
          obtain ⟨original, isMatch, rfl⟩ := mem_map.mp mem
          obtain ⟨rule, isRule, matched⟩ := mem_matchesOf_iff.mp isMatch
          exact mem_map_of_mem (mem_matchesOf_iff.mpr
            ⟨rule, (grows.mem_iff _ _).mpr (.inl isRule), matched⟩)

/--
A grown policy enforces what the old one decided about a command exactly if
the old match was under the first word of the command, or no added rule
matches there, or one that does is as strict.
-/
theorem Grows.enforces_grown_iff (grows : Grows policy added grown) {decision : Decision}
    (decided : strictest
      (policy.matchesForCommandWithOptions paths cmd none true) = some decision) :
    grown.Enforces paths cmd decision ↔ policy.exactMatches cmd ≠ [] ∨ addedMatches added cmd = [] ∨
        ∃ item ∈ addedMatches added cmd, decision.severity ≤ item.decision.severity := by
  by_cases weakest : decision = .allow
  · subst weakest
    refine iff_of_true (grown.enforces_allow paths cmd) (.inr ?_)
    cases addedMatches added cmd with
    | nil => exact .inl rfl
    | cons item rest => exact .inr ⟨item, .head _, Nat.zero_le _⟩
  obtain ⟨⟨found, mem, rfl⟩, -⟩ := strictest_spec decided
  rw [enforces_iff paths weakest, matchesForCommand_none]
  rw [matchesForCommand_none] at mem
  by_cases exact : policy.exactMatches cmd = []
  · rw [if_pos exact] at mem
    simp only [exact, ne_eq, not_true_eq_false, false_or]
    have sameExact : ∀ item, item ∈ grown.exactMatches cmd ↔ item ∈ addedMatches added cmd := by
      intro item
      rw [grows.mem_exactMatches, exact]
      simp
    by_cases unmatched : addedMatches added cmd = []
    · -- Nothing hides the second tier.
      have noExact : grown.exactMatches cmd = [] := by
        rw [eq_nil_iff_forall_not_mem]
        intro item isMatch
        rw [sameExact, unmatched] at isMatch
        exact nomatch isMatch
      rw [if_pos noExact]
      exact iff_of_true ⟨found, grows.mem_hostMatches paths mem, le_rfl⟩ (.inl unmatched)
    · have hidden : grown.exactMatches cmd ≠ [] := by
        obtain ⟨item, isMatch⟩ := exists_mem_of_ne_nil _ unmatched
        exact ne_nil_of_mem ((sameExact item).mpr isMatch)
      rw [if_neg hidden]
      simp only [unmatched, false_or, sameExact]
  · rw [if_neg exact] at mem
    have kept := grows.mem_exactMatches.mpr (.inl mem)
    rw [if_neg (ne_nil_of_mem kept)]
    exact iff_of_true ⟨found, kept, le_rfl⟩ (.inl exact)

/-! ## The ways to add rules -/

/-- The rule that a call of `add_prefix_rule` adds, with its key. -/
def calledRule (call : List String × Decision) : Option (String × PrefixRule) :=
  match call.1 with
  | [] => none
  | first :: rest => some (first, ⟨⟨first, rest.map .single⟩, call.2, none⟩)

/-- A sequence of `add_prefix_rule` calls; a call that fails adds nothing. -/
def addPrefixRules (policy : Policy) (calls : List (List String × Decision)) : Policy :=
  calls.foldl (fun policy call =>
      match policy.addPrefixRule call.1 call.2 with
      | .ok extended => extended
      | .error _ => policy) policy

/--
The policies obtained from a policy by adding rules, with the rules that were
added: by calls, by an overlay, or by being the overlay of another policy.
-/
inductive Extended (policy : Policy) : List (String × PrefixRule) → Policy → Prop where
  | called (calls : List (List String × Decision)) : Extended policy (calls.filterMap calledRule)
        (policy.addPrefixRules calls)
  | overlaid (overlay : Policy) (noHostExecutables : overlay.hostExecutablesByName = []) :
      Extended policy overlay.rulesByProgram (policy.mergeOverlay overlay)
  | overlaying (base : Policy) (noHostExecutables : base.hostExecutablesByName = []) :
      Extended policy base.rulesByProgram (base.mergeOverlay policy)

theorem addPrefixRules_eq (policy : Policy) (calls : List (List String × Decision)) :
    policy.addPrefixRules calls = { policy with
        rulesByProgram := policy.rulesByProgram ++ calls.filterMap calledRule } := by
  induction calls generalizing policy with
  | nil => simp [addPrefixRules]
  | cons call calls ih =>
    obtain ⟨tokens, decision⟩ := call
    cases tokens with
    | nil => exact ih policy
    | cons first rest =>
      refine (ih _).trans ?_
      simp [calledRule, addPrefixRule]

theorem grows_of_extended (extended : Extended policy added grown) : Grows policy added grown := by
  cases extended with
  | called calls =>
    rw [addPrefixRules_eq]
    exact ⟨fun program rule => by simp only [mem_rulesFor_iff, mem_append], fun _ => rfl⟩
  | overlaid overlay noHostExecutables =>
    refine ⟨fun program rule => by simp only [mem_rulesFor_iff, mergeOverlay,
      mem_append], fun name => ?_⟩
    simp [hostPaths, mergeOverlay, noHostExecutables]
  | overlaying base noHostExecutables =>
    refine ⟨fun program rule => by simp only [mem_rulesFor_iff, mergeOverlay,
      mem_append, or_comm], fun name => ?_⟩
    simp [hostPaths, mergeOverlay, noHostExecutables]

/--
Adding rules keeps the strictest decision about a command, unless that
decision came from the file name of the program and the added rules that match
the first word of the command are all weaker.
-/
theorem added_rules_keep_decision_iff (paths : ProcessPaths) {policy grown : Policy}
    {added : List (String × PrefixRule)}
    (extended : Extended policy added grown)
    (cmd : List String) (decision : Decision)
    (decided : strictest
      (policy.matchesForCommandWithOptions paths cmd none true) = some decision) :
    grown.Enforces paths cmd decision ↔ policy.exactMatches cmd ≠ [] ∨ addedMatches added cmd = [] ∨
        ∃ item ∈ addedMatches added cmd, decision.severity ≤ item.decision.severity :=
  (grows_of_extended extended).enforces_grown_iff paths decided

def forbidsGit : Policy := ⟨[("git", ⟨⟨"git", []⟩, .forbidden, none⟩)], [], []⟩

/-- Allowing `git status` by name leaves `git` forbidden. -/
theorem allowed_subcommand_stays_forbidden :
    strictest (forbidsGit.matchesForCommandWithOptions ⟨none, none⟩
        ["git", "status"] none true) = some .forbidden ∧
      (forbidsGit.addPrefixRules [(["git", "status"], .allow)]).Enforces
        ⟨none, none⟩ ["git", "status"] .forbidden := by
  refine ⟨by decide +kernel, (added_rules_keep_decision_iff ⟨none, none⟩
    (.called [(["git", "status"], .allow)]) ["git", "status"] .forbidden
    (by decide +kernel)).mpr (.inl (by decide +kernel))⟩

/--
Allowing the path of `git` hides the rule that forbids it by name.
-/
theorem allowed_path_hides_forbidden_name :
    strictest (forbidsGit.matchesForCommandWithOptions ⟨none, none⟩
        ["/usr/bin/git", "push"] none true) = some .forbidden ∧
      (forbidsGit.addPrefixRules [(["/usr/bin/git"], .allow)]).checkWithOptions ⟨none, none⟩
          ["/usr/bin/git", "push"] (fun _ => .allow) true =
        some ⟨.allow, [.prefixRuleMatch ["/usr/bin/git"] .allow none none]⟩ := by
  decide +kernel

end Policy

end Codex.ExecPolicy.Rules
