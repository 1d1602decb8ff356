import Mathlib.Algebra.Group.Int.Defs
import Mathlib.Data.List.Induction
import Mathlib.Data.List.Nodup

/-!
# Thread goals

`state/src/runtime/goals.rs` keeps one goal for a thread, in one row.  Every SQL
statement is a step on that row.  Some calls read the row back with a second
statement, and the statements of other calls may run in between.
-/

namespace Codex.State.ThreadGoals

open List

inductive ThreadGoalStatus where
  | active
  | paused
  | blocked
  | usageLimited
  | budgetLimited
  | complete
deriving DecidableEq

/-- The row of a thread, and what is read from it. -/
structure ThreadGoal where
  goalId : String
  objective : String
  status : ThreadGoalStatus
  tokenBudget : Option Int
  tokensUsed : Int
  timeUsedSeconds : Int
  createdAtMs : Int
  updatedAtMs : Int
deriving DecidableEq

inductive ReadError where
  | columnDecode (column : String)
deriving DecidableEq

/--
SQLite turns a sum beyond `i64` into a `REAL` of at least `2 ^ 63`.  It compares
with a budget as the sum does, but cannot be read as an `i64`.
-/
def threadGoalFromRow (row : ThreadGoal) : Except ReadError ThreadGoal :=
  if 2 ^ 63 ≤ row.tokensUsed then .error (.columnDecode "tokens_used")
  else if 2 ^ 63 ≤ row.timeUsedSeconds then .error (.columnDecode "time_used_seconds")
  else .ok row

def getThreadGoal (row : Option ThreadGoal) : Except ReadError (Option ThreadGoal) :=
  row.mapM threadGoalFromRow

def usedUp (tokenBudget : Option Int) (tokensUsed : Int) : Bool := tokenBudget.any (· ≤ tokensUsed)

def statusAfterBudgetLimit (status : ThreadGoalStatus) (tokensUsed : Int)
    (tokenBudget : Option Int) : ThreadGoalStatus :=
  if status = .active ∧ usedUp tokenBudget tokensUsed then .budgetLimited else status

/-! ## Statements -/

/-- A goal to store, under the new identifier that the call draws. -/
structure NewGoal where
  goalId : String
  objective : String
  status : ThreadGoalStatus
  tokenBudget : Option Int

def NewGoal.row (new : NewGoal) (nowMs : Int) : ThreadGoal where
  goalId := new.goalId
  objective := new.objective
  status := statusAfterBudgetLimit new.status 0 new.tokenBudget
  tokenBudget := new.tokenBudget
  tokensUsed := 0
  timeUsedSeconds := 0
  createdAtMs := nowMs
  updatedAtMs := nowMs

structure GoalUpdate where
  objective : Option String := none
  status : Option ThreadGoalStatus := none
  tokenBudget : Option (Option Int) := none
  expectedGoalId : Option String := none

/-- Nothing to write: the call only reads. -/
def GoalUpdate.isEmpty (update : GoalUpdate) : Bool :=
  update.objective.isNone && update.status.isNone && update.tokenBudget.isNone

def givenStatus (goal : ThreadGoal) (status : ThreadGoalStatus) (tokenBudget : Option Int) :
    ThreadGoalStatus :=
  if goal.status = .budgetLimited ∧ status ∈ [.paused, .blocked] then goal.status
  else statusAfterBudgetLimit status goal.tokensUsed tokenBudget

/-- The `SET` of the four statements of `update_thread_goal`. -/
def GoalUpdate.set (update : GoalUpdate) (nowMs : Int) (goal : ThreadGoal) : ThreadGoal :=
  let touched :=
    { goal with objective := update.objective.getD goal.objective, updatedAtMs := nowMs }
  match update.status, update.tokenBudget with
  | some status, some tokenBudget =>
    { touched with status := givenStatus goal status tokenBudget, tokenBudget }
  | some status, none => { touched with status := givenStatus goal status goal.tokenBudget }
  | none, some tokenBudget =>
    { touched with
      tokenBudget
      status := statusAfterBudgetLimit goal.status goal.tokensUsed tokenBudget }
  | none, none => touched

inductive GoalAccountingMode where
  | activeStatusOnly
  | activeOnly
  | activeOrComplete
  | activeOrStopped

def statusFilter : GoalAccountingMode → List ThreadGoalStatus
  | .activeStatusOnly => [.active]
  | .activeOnly => [.active, .budgetLimited]
  | .activeOrComplete => [.active, .budgetLimited, .complete]
  | .activeOrStopped => [.active, .paused, .blocked, .usageLimited, .budgetLimited]

def budgetLimitStatusFilter : GoalAccountingMode → List ThreadGoalStatus
  | .activeOrStopped => statusFilter .activeOrStopped
  | _ => [.active]

/-- The arguments of `account_thread_goal_usage`. -/
structure Usage where
  timeDeltaSeconds : Int
  tokenDelta : Int
  mode : GoalAccountingMode
  expectedGoalId : Option String := none

def Usage.isEmpty (usage : Usage) : Bool := usage.timeDeltaSeconds ≤ 0 ∧ usage.tokenDelta ≤ 0

def Usage.set (usage : Usage) (nowMs : Int) (goal : ThreadGoal) : ThreadGoal :=
  { goal with
    timeUsedSeconds := goal.timeUsedSeconds + max usage.timeDeltaSeconds 0
    tokensUsed := goal.tokensUsed + max usage.tokenDelta 0
    status :=
      if goal.status ∈ budgetLimitStatusFilter usage.mode ∧
          usedUp goal.tokenBudget (goal.tokensUsed + max usage.tokenDelta 0) then .budgetLimited
      else goal.status
    updatedAtMs := nowMs }

/-- The statements that change a row in place. -/
inductive Change where
  | update (goalUpdate : GoalUpdate)
  | pauseActive
  | usageLimitActive
  | account (usage : Usage)

def Change.selects (goal : ThreadGoal) : Change → Bool
  | .update goalUpdate => !goalUpdate.isEmpty ∧ goalUpdate.expectedGoalId.all (· = goal.goalId)
  | .pauseActive => goal.status = .active
  | .usageLimitActive => goal.status ∈ [.active, .budgetLimited]
  | .account usage =>
    !usage.isEmpty ∧ goal.status ∈ statusFilter usage.mode ∧
      usage.expectedGoalId.all (· = goal.goalId)

def Change.set (nowMs : Int) (goal : ThreadGoal) : Change → ThreadGoal
  | .update goalUpdate => goalUpdate.set nowMs goal
  | .pauseActive => { goal with status := .paused, updatedAtMs := nowMs }
  | .usageLimitActive => { goal with status := .usageLimited, updatedAtMs := nowMs }
  | .account usage => usage.set nowMs goal

def Change.apply (change : Change) (nowMs : Int) (goal : ThreadGoal) : ThreadGoal :=
  if change.selects goal then change.set nowMs goal else goal

/-- The statements that write, each of a call of its own. -/
inductive Statement where
  | replace (new : NewGoal) (nowMs : Int)
  | insert (new : NewGoal) (nowMs : Int)
  | change (given : Change) (nowMs : Int)
  | delete

def Statement.step (row : Option ThreadGoal) : Statement → Option ThreadGoal
  | .replace new nowMs => new.row nowMs
  | .insert new nowMs => row.or (new.row nowMs)
  | .change given nowMs => row.map (given.apply nowMs)
  | .delete => none

def run (statements : List Statement) (row : Option ThreadGoal) : Option ThreadGoal :=
  statements.foldl Statement.step row

/-! ## Calls -/

/--
`update_thread_goal` with the statements that run between its own two, and the
row that it read last.
-/
def updateThreadGoal (update : GoalUpdate) (nowMs : Int) (others : List Statement)
    (row : Option ThreadGoal) : Except ReadError (Option ThreadGoal) × Option ThreadGoal :=
  if update.isEmpty then
    ((getThreadGoal row).map
      (·.filter fun goal => update.expectedGoalId.all (· = goal.goalId)), row)
  else if row.any (Change.update update).selects then
    let last := run others (Statement.step row (.change (.update update) nowMs))
    (getThreadGoal last, last)
  else (.ok none, row)

inductive GoalAccountingOutcome where
  | unchanged (goal : Option ThreadGoal)
  | updated (goal : ThreadGoal)

/-- `account_thread_goal_usage`; a row that is not updated is read with a second statement. -/
def accountThreadGoalUsage (usage : Usage) (nowMs : Int) (others : List Statement)
    (row : Option ThreadGoal) : Except ReadError GoalAccountingOutcome :=
  if usage.isEmpty then (getThreadGoal row).map .unchanged
  else match row.filter (Change.account usage).selects with
    | some goal => (threadGoalFromRow (usage.set nowMs goal)).map .updated
    | none => (getThreadGoal (run others row)).map .unchanged

variable {row : Option ThreadGoal} {goal : ThreadGoal} {statement : Statement} {change : Change}
  {nowMs : Int}

theorem eq_of_threadGoalFromRow {stored : ThreadGoal} (read : threadGoalFromRow stored = .ok goal) :
    stored = goal := by
  unfold threadGoalFromRow at read
  split_ifs at read
  exact Except.ok.inj read

theorem eq_of_getThreadGoal {result : Option ThreadGoal} (read : getThreadGoal row = .ok result) :
    row = result := by
  cases row with
  | none => exact Except.ok.inj read
  | some stored =>
    cases found : threadGoalFromRow stored with
    | error error => simp [getThreadGoal, found] at read
    | ok goal =>
      obtain rfl := eq_of_threadGoalFromRow found
      simpa [getThreadGoal, found, pure, Except.pure] using read

theorem eq_of_accountThreadGoalUsage {usage : Usage} {others : List Statement}
    (returned : accountThreadGoalUsage usage nowMs others row = .ok (.updated goal)) :
    ∃ old, row = some old ∧ (Change.account usage).selects old ∧ usage.set nowMs old = goal := by
  unfold accountThreadGoalUsage at returned
  split_ifs at returned with empty
  · cases read : getThreadGoal row <;> simp [read, Except.map] at returned
  · split at returned
    · next old found =>
      obtain ⟨stored, selected⟩ := Option.filter_eq_some_iff.mp found
      cases read : threadGoalFromRow (usage.set nowMs old) with
      | error error => simp [read, Except.map] at returned
      | ok last =>
        simp only [read, Except.map, Except.ok.injEq,
          GoalAccountingOutcome.updated.injEq] at returned
        exact ⟨old, stored, selected, returned ▸ eq_of_threadGoalFromRow read⟩
    · cases read : getThreadGoal (run others row) <;> simp [read, Except.map] at returned

/-! ## The goal that is stored -/

def Statement.newId : Statement → Option String
  | .replace new _ | .insert new _ => some new.goalId
  | _ => none

def Statement.stores (row : Option ThreadGoal) : Statement → Bool
  | .replace _ _ => true
  | .insert _ _ => row.isNone
  | _ => false

theorem Change.apply_goalId : (change.apply nowMs goal).goalId = goal.goalId := by
  unfold Change.apply
  split
  · cases change with
    | update update =>
      simp only [set, GoalUpdate.set]
      split <;> rfl
    | _ => rfl
  · rfl

theorem Statement.step_goalId (stored : statement.step row = some goal) :
    if statement.stores row then statement.newId = some goal.goalId
    else ∃ old, row = some old ∧ old.goalId = goal.goalId := by
  cases statement with
  | replace new nowMs =>
    cases stored
    rfl
  | insert new nowMs => cases row <;> cases stored <;> simp [stores, newId, NewGoal.row]
  | change change nowMs =>
    obtain ⟨old, rfl, rfl⟩ := Option.map_eq_some_iff.mp stored
    exact ⟨old, rfl, change.apply_goalId.symm⟩
  | delete => exact nomatch stored

def renewed : List Statement → Option ThreadGoal → Bool
  | [], _ => false
  | statement :: rest, row => statement.stores row || renewed rest (statement.step row)

theorem run_goalId_iff {goalId : String} {others : List Statement} (own : Prop)
    (fresh : ∀ statement ∈ others, statement.newId ≠ some goalId)
    (before : ∀ old, row = some old → (old.goalId = goalId ↔ own))
    (stored : run others row = some goal) :
    goal.goalId = goalId ↔ own ∧ renewed others row = false := by
  induction others generalizing row own with
  | nil => simp [renewed, before goal stored]
  | cons statement rest ih =>
    rw [ih (own ∧ statement.stores row = false) (forall_mem_cons.mp fresh).2 ?_ stored]
    · simp [renewed, and_assoc]
    · intro next here
      have given := statement.step_goalId here
      split_ifs at given with stores
      · refine iff_of_false ?_ (by simp [stores])
        rintro rfl
        exact (forall_mem_cons.mp fresh).1 given
      · obtain ⟨old, found, same⟩ := given
        simp [← same, before old found, stores]

/--
A call reports a state of its own goal unless another goal is stored between the
write and the read of an update.
-/
theorem calls_report_own_goal_iff {goalId : String} {others : List Statement}
    (fresh : ∀ statement ∈ others, statement.newId ≠ some goalId) (row : Option ThreadGoal)
    (nowMs : Int) :
    (∀ update : GoalUpdate, update.expectedGoalId = some goalId →
      (∀ goal, (updateThreadGoal update nowMs others row).1 = .ok (some goal) →
        (updateThreadGoal update nowMs others row).2 = some goal ∧
          (goal.goalId = goalId ↔ update.isEmpty ∨
            renewed others (Statement.step row (.change (.update update) nowMs)) = false)) ∧
      ((updateThreadGoal update nowMs others row).1 = .ok none →
        (∀ goal, row = some goal → goal.goalId ≠ goalId) ∨
          (updateThreadGoal update nowMs others row).2 = none)) ∧
    ∀ usage : Usage, usage.expectedGoalId = some goalId → ∀ goal,
      accountThreadGoalUsage usage nowMs others row = .ok (.updated goal) →
        goal.goalId = goalId ∧
          Statement.step row (.change (.account usage) nowMs) = some goal := by
  refine ⟨fun update expected => ?_, fun usage expected goal returned => ?_⟩
  · cases empty : update.isEmpty with
    | true =>
      simp only [updateThreadGoal, empty, if_true, expected, Option.all_some]
      cases read : getThreadGoal row with
      | error error => simp [Except.map]
      | ok result =>
        obtain rfl := eq_of_getThreadGoal read
        cases row <;> simp [Except.map, Option.filter]
        grind
    | false =>
      simp only [updateThreadGoal, empty, Bool.false_eq_true, if_false, false_or]
      cases selected : row.any (Change.update update).selects with
      | false =>
        refine ⟨fun goal returned => by simp at returned, fun _ => .inl ?_⟩
        rintro goal rfl rfl
        simp [Change.selects, empty, expected] at selected
      | true =>
        refine ⟨fun goal returned => ?_, fun returned => .inr (eq_of_getThreadGoal returned)⟩
        have stored := eq_of_getThreadGoal returned
        refine ⟨stored, (run_goalId_iff True fresh (fun next here => ?_) stored).trans
          (true_and _ ▸ .rfl)⟩
        obtain ⟨old, rfl, same⟩ := Statement.step_goalId here
        simp [Change.selects, empty, expected] at selected
        simp [← same, selected]
  · obtain ⟨old, rfl, selected, rfl⟩ := eq_of_accountThreadGoalUsage returned
    refine ⟨?_, by simp [Statement.step, Change.apply, selected, Change.set]⟩
    simp [Change.selects, expected] at selected
    exact selected.2.2.symm

def oldGoal : ThreadGoal := NewGoal.row ⟨"a", "old", .active, none⟩ 0

/-- A paused goal is still reported. -/
theorem calls_report_own_goal_paused : ∃ goal,
    (updateThreadGoal { objective := some "new", expectedGoalId := some "a" } 2
      [.change .pauseActive 1] oldGoal).1 = .ok (some goal) ∧ goal.goalId = "a" := by
  have fresh : ∀ statement ∈ [Statement.change .pauseActive 1], statement.newId ≠ some "a" := by
    simp [Statement.newId]
  have reported := (calls_report_own_goal_iff fresh oldGoal 2).1
    { objective := some "new", expectedGoalId := some "a" } rfl
  exact ⟨_, rfl, (reported.1 _ rfl).2.mpr (.inr rfl)⟩

/-- The goal that replaces a completed one is reported in its place. -/
theorem replacing_goal_is_reported : ∃ goal,
    (updateThreadGoal { status := some .complete, expectedGoalId := some "a" } 2
      [.replace ⟨"b", "new", .active, none⟩ 1] oldGoal).1 = .ok (some goal) ∧ goal.goalId = "b" :=
  ⟨_, rfl, rfl⟩

/-! ## Budgets -/

/-- An active goal has tokens left. -/
def WithinBudget (goal : ThreadGoal) : Prop :=
  goal.status = .active → usedUp goal.tokenBudget goal.tokensUsed = false

theorem usedUp_of_statusAfterBudgetLimit {status : ThreadGoalStatus} {tokensUsed : Int}
    {tokenBudget : Option Int}
    (active : statusAfterBudgetLimit status tokensUsed tokenBudget = .active) :
    usedUp tokenBudget tokensUsed = false := by
  unfold statusAfterBudgetLimit at active
  split_ifs at active with limited
  exact Bool.eq_false_iff.mpr fun used => limited ⟨active, used⟩

theorem usedUp_of_givenStatus {status : ThreadGoalStatus} {tokenBudget : Option Int}
    (active : givenStatus goal status tokenBudget = .active) :
    usedUp tokenBudget goal.tokensUsed = false := by
  unfold givenStatus at active
  split_ifs at active with kept
  · exact nomatch kept.1.symm.trans active
  · exact usedUp_of_statusAfterBudgetLimit active

theorem Change.apply_withinBudget (within : WithinBudget goal) :
    WithinBudget (change.apply nowMs goal) := by
  unfold Change.apply
  split
  · cases change with
    | update update =>
      simp only [set, GoalUpdate.set]
      split
      · exact usedUp_of_givenStatus
      · exact usedUp_of_givenStatus
      · exact usedUp_of_statusAfterBudgetLimit
      · exact within
    | account usage =>
      intro active
      simp only [set, Usage.set] at active ⊢
      split_ifs at active with limited
      refine Bool.eq_false_iff.mpr fun used => limited ⟨?_, used⟩
      -- An active goal is looked at in every mode.
      rw [active]
      cases usage.mode <;> decide
    | _ => exact nofun
  · exact within

theorem run_withinBudget {statements : List Statement}
    (within : ∀ old, row = some old → WithinBudget old) (stored : run statements row = some goal) :
    WithinBudget goal := by
  induction statements generalizing row with
  | nil => exact within goal stored
  | cons statement rest ih =>
    refine ih (fun next here => ?_) stored
    cases statement with
    | replace new nowMs =>
      cases here
      exact usedUp_of_statusAfterBudgetLimit
    | insert new nowMs =>
      cases row with
      | none =>
        cases here
        exact usedUp_of_statusAfterBudgetLimit
      | some old => exact within next here
    | change change nowMs =>
      obtain ⟨old, rfl, rfl⟩ := Option.map_eq_some_iff.mp here
      exact change.apply_withinBudget (within old rfl)
    | delete => exact nomatch here

/-- The statements that take a goal out of `budget_limited`. -/
def Statement.releases : Statement → Bool
  | .replace _ _ | .delete | .change .usageLimitActive _ => true
  | .change (.update goalUpdate) _ =>
    goalUpdate.status.any (· ∉ [.paused, .blocked, .budgetLimited])
  | _ => false

theorem Statement.step_budgetLimited (limited : goal.status = .budgetLimited)
    (keeps : statement.releases = false) :
    (statement.step (some goal)).map (·.status) = some .budgetLimited := by
  cases statement with
  | insert new nowMs => exact congrArg some limited
  | change change nowMs =>
    simp only [step, Option.map_some, Change.apply]
    split
    · cases change with
      | update update =>
        simp only [Change.set, GoalUpdate.set]
        split <;> simp_all [releases, givenStatus, statusAfterBudgetLimit]
      | account usage => simp [Change.set, Usage.set, limited]
      | pauseActive => simp_all [Change.selects]
      | usageLimitActive => simp [releases] at keeps
    · exact congrArg some limited
  | _ => simp [releases] at keeps

/-! ## Tokens used -/

/-- The tokens that an accounting call reports as added to a goal. -/
def credit (goalId : String) (row : Option ThreadGoal) : Statement → Int
  | .change (.account usage) nowMs =>
    match accountThreadGoalUsage usage nowMs [] row with
    | .ok (.updated goal) => if goal.goalId = goalId then max usage.tokenDelta 0 else 0
    | _ => 0
  | _ => 0

def credited (goalId : String) : List Statement → Option ThreadGoal → Int
  | [], _ => 0
  | statement :: rest, row =>
    credit goalId row statement + credited goalId rest (statement.step row)

theorem credited_concat (goalId : String) (past : List Statement) :
    credited goalId (past ++ [statement]) row =
      credited goalId past row + credit goalId (run past row) statement := by
  induction past generalizing row with
  | nil => simp [credited, run]
  | cons first past ih => simp only [cons_append, credited, ih, run, foldl_cons, Int.add_assoc]

theorem credit_eq_zero {goalId : String} (other : ∀ old, row = some old → old.goalId ≠ goalId) :
    credit goalId row statement = 0 := by
  unfold credit
  split
  · split
    · next returned =>
      obtain ⟨old, stored, -, rfl⟩ := eq_of_accountThreadGoalUsage returned
      exact if_neg (other old stored)
    · rfl
  · rfl

theorem Change.apply_tokensUsed
    (readable : threadGoalFromRow (change.apply nowMs goal) = .ok (change.apply nowMs goal)) :
    (change.apply nowMs goal).tokensUsed =
      goal.tokensUsed + credit goal.goalId (some goal) (.change change nowMs) := by
  unfold Change.apply at readable ⊢
  split_ifs at readable ⊢ with selected
  · cases change with
    | update update =>
      simp only [set, GoalUpdate.set, credit, Int.add_zero]
      split <;> rfl
    | account usage =>
      have written : usage.isEmpty = false := by
        simp only [selects, Bool.not_eq_true', decide_eq_true_eq] at selected
        exact selected.1
      simp only [set] at readable ⊢
      simp only [credit, accountThreadGoalUsage, written, Option.filter, selected, readable,
        Except.map, Bool.false_eq_true, if_false, if_true]
      simp [Usage.set]
    | _ => simp [credit, set]
  · cases change with
    | account usage =>
      simp only [credit]
      split
      · next returned =>
        obtain ⟨old, stored, chosen, -⟩ := eq_of_accountThreadGoalUsage returned
        exact absurd (Option.some.inj stored ▸ chosen) selected
      · exact (Int.add_zero _).symm
    | _ => exact (Int.add_zero _).symm

/-- The stored goal holds what was credited to its identifier. -/
structure Balanced (past : List Statement) : Prop where
  listed : ∀ goal, run past none = some goal → goal.goalId ∈ past.filterMap Statement.newId
  tokensUsed : ∀ goal, run past none = some goal → goal.tokensUsed = credited goal.goalId past none
  unknown : ∀ goalId ∉ past.filterMap Statement.newId, credited goalId past none = 0

theorem Balanced.concat {past : List Statement} (balanced : Balanced past)
    (fresh : ∀ goalId ∈ past.filterMap Statement.newId, statement.newId ≠ some goalId)
    (readable : ∀ goal, run (past ++ [statement]) none = some goal →
      threadGoalFromRow goal = .ok goal) : Balanced (past ++ [statement]) := by
  have last : run (past ++ [statement]) none = statement.step (run past none) := by simp [run]
  have unused {goal : ThreadGoal} (named : statement.newId = some goal.goalId) :
      credited goal.goalId (past ++ [statement]) none = 0 := by
    rw [credited_concat, balanced.unknown _ fun listed => fresh _ listed named]
    cases statement <;> first | rfl | exact nomatch named
  rw [last] at readable
  refine ⟨fun goal stored => ?_, fun goal stored => ?_, fun goalId unlisted => ?_⟩
  · have given := statement.step_goalId (last ▸ stored)
    rw [filterMap_append, mem_append]
    split_ifs at given
    · exact .inr (by simp [given])
    · obtain ⟨old, before, same⟩ := given
      exact .inl (same ▸ balanced.listed old before)
  · rw [last] at stored
    cases statement with
    | replace new nowMs =>
      cases stored
      exact (unused rfl).symm
    | insert new nowMs =>
      cases before : run past none with
      | none =>
        rw [before] at stored
        cases stored
        exact (unused rfl).symm
      | some old =>
        rw [before] at stored
        obtain rfl : old = goal := Option.some.inj stored
        rw [balanced.tokensUsed old before, credited_concat]
        exact (Int.add_zero _).symm
    | change change nowMs =>
      have read := readable goal stored
      obtain ⟨old, before, rfl⟩ := Option.map_eq_some_iff.mp stored
      rw [credited_concat, change.apply_tokensUsed read, change.apply_goalId, before,
        balanced.tokensUsed old before]
    | delete => exact nomatch stored
  · simp only [filterMap_append, mem_append, not_or] at unlisted
    rw [credited_concat, balanced.unknown goalId unlisted.1, credit_eq_zero, Int.add_zero]
    rintro old before rfl
    exact unlisted.1 (balanced.listed old before)

theorem balanced_of_readable {statements : List Statement}
    (distinct : (statements.filterMap Statement.newId).Nodup)
    (readable : ∀ past, past <+: statements → ∀ goal, run past none = some goal →
      threadGoalFromRow goal = .ok goal) : Balanced statements := by
  induction statements using reverseRecOn with
  | nil => exact ⟨nofun, nofun, fun _ _ => rfl⟩
  | append_singleton past statement ih =>
    rw [filterMap_append, nodup_append] at distinct
    have earlier := ih distinct.1 fun before within => readable before
      (within.trans ( prefix_append past [statement]))
    refine earlier.concat (fun goalId listed named => ?_) (readable _ ( prefix_refl _))
    exact distinct.2.2 goalId listed goalId (by simp [named]) rfl

/--
An active goal has tokens left, and a goal that used up its budget stays limited
until it is released.  The tokens used are those that calls reported as long as
the totals fit in `i64`.
-/
theorem used_up_goals_not_active (statements : List Statement) (goal : ThreadGoal)
    (stored : run statements none = some goal) :
    (goal.status = .active → usedUp goal.tokenBudget goal.tokensUsed = false) ∧
    (goal.status = .budgetLimited → usedUp goal.tokenBudget goal.tokensUsed →
      ∀ statement : Statement, statement.releases = false →
        (statement.step (some goal)).map (·.status) = some .budgetLimited) ∧
    ((statements.filterMap Statement.newId).Nodup →
      (∀ past, past <+: statements → ∀ goal, run past none = some goal →
        threadGoalFromRow goal = .ok goal) →
      goal.tokensUsed = credited goal.goalId statements none) :=
  ⟨run_withinBudget (by simp) stored, fun limited _ _ keeps =>
    Statement.step_budgetLimited limited keeps, fun distinct readable =>
      (balanced_of_readable distinct readable).tokensUsed goal stored⟩

/-- Five reported tokens use up the goal, and a further report leaves it limited. -/
theorem used_up_goals_not_active_spent :
    let account := Statement.change (.account ⟨1, 5, .activeOnly, none⟩)
    let spent := [.replace ⟨"a", "old", .active, some 5⟩ 0, account 1]
    credited "a" spent none = 5 ∧
        (run (spent ++ [account 2]) none).map (·.status) = some .budgetLimited := by
  intro account spent
  have kept := (used_up_goals_not_active spent _ rfl).2
  refine ⟨(kept.2 (by decide) fun past within goal stored => ?_).symm,
    kept.1 rfl rfl (account 2) rfl⟩
  rcases prefix_cons_iff.mp within with rfl | ⟨_, rfl, rest⟩
  · exact nomatch stored
  rcases prefix_cons_iff.mp rest with rfl | ⟨_, rfl, last⟩
  · cases stored
    decide
  · obtain rfl := prefix_nil.mp last
    cases stored
    decide

/-- The time used exceeds `i64`: five tokens are added by a call that fails. -/
theorem unreadable_usage_not_credited :
    let statements : List Statement :=
      [.replace ⟨"a", "old", .active, none⟩ 0,
          .change (.account ⟨2 ^ 63 - 1, 0, .activeOnly, none⟩) 1,
        .change (.account ⟨1, 5, .activeOnly, none⟩) 2]
    (run statements none).map (·.tokensUsed) = some 5 ∧ credited "a" statements none = 0 := by
  decide

end Codex.State.ThreadGoals
