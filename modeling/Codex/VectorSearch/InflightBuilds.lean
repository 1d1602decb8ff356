import Mathlib.Logic.Function.Basic

/-!
# Builds in flight

`IndexManager` of `vector-search/src/index.rs`, locked for the whole of a
search by `core/src/tools/handlers/vector_search.rs`.  `ensure` marks a scope
before it builds the index and takes the mark away after the build; a search
that is dropped or panics in between leaves the mark, and the next search for
the scope waits for a build that nobody runs.
-/

namespace Codex.VectorSearch.InflightBuilds

open Function

/-- `ScopeIndex`, as the contents of its chunks. -/
abbrev ScopeIndex := List String

def maxTotalBytes : Nat := 50 * 1024 * 1024

def contentLimit : Nat := 1500

structure IndexManager where
  cacheDir : Option String
  hasEmbedder : Bool
  indexes : String → Option ScopeIndex
  inflight : List String

def IndexManager.new (cacheDir : Option String) (hasEmbedder : Bool) : IndexManager :=
  ⟨cacheDir, hasEmbedder, fun _ => none, []⟩

/-- The await points of a search; `is_stale`, the cache and the build read files there. -/
inductive Point where
  | checkingLoaded
  | loadingCache
  | checkingCached (cached : ScopeIndex)
  | removingCache
  | waiting
  | discovering
  | reading
  | creatingDir (built : ScopeIndex)
  | writing (built : ScopeIndex)

/-- What the files say when a search is polled. -/
structure Answer where
  stale : Bool
  cached : Option ScopeIndex
  chunks : ScopeIndex

inductive Progress where
  | awaiting (point : Point)
  | returned
  | panicked

/-! ## The search -/

/-- The chunks before the one that passes the cap on the total content. -/
def withinTotal (room : Nat) : List String → List String
  | [] => []
  | content :: rest =>
    if content.utf8ByteSize ≤ room then content :: withinTotal (room - content.utf8ByteSize) rest
    else []

/-- `&content[..end]` inside a character. -/
def slicePanics (content : String) : Bool :=
  contentLimit < content.utf8ByteSize && !(String.Pos.Raw.mk contentLimit).isValid content

variable (manager : IndexManager) (scope : String) (answer : Answer)

/-- `build` after the files are read; `none` is a panic. -/
def build : Option ScopeIndex :=
  let chunks := withinTotal maxTotalBytes answer.chunks
  if manager.hasEmbedder && chunks.any slicePanics then none else some chunks

def buildOrWait : IndexManager × Progress :=
  if scope ∈ manager.inflight then (manager, .awaiting .waiting)
  else ({ manager with inflight := scope :: manager.inflight }, .awaiting .discovering)

def loadCached : IndexManager × Progress :=
  if manager.cacheDir.isSome then (manager, .awaiting .loadingCache)
  else buildOrWait manager scope

def ensure : IndexManager × Progress :=
  if (manager.indexes scope).isSome then (manager, .awaiting .checkingLoaded)
  else loadCached manager scope

def finish (built : ScopeIndex) : IndexManager × Progress :=
  ({ manager with
      indexes := update manager.indexes scope (some built)
      inflight := manager.inflight.filter (· ≠ scope) }, .returned)

/-- `ensure`, polled at an await point. -/
def resume : Point → IndexManager × Progress
  | .checkingLoaded =>
    if answer.stale then
      loadCached { manager with indexes := update manager.indexes scope none } scope
    else (manager, .returned)
  | .loadingCache =>
    match answer.cached with
    | some cached => (manager, .awaiting (.checkingCached cached))
    | none => buildOrWait manager scope
  | .checkingCached cached =>
    if answer.stale then (manager, .awaiting .removingCache)
    else ({ manager with indexes := update manager.indexes scope (some cached) }, .returned)
  | .removingCache => buildOrWait manager scope
  -- only another search notifies, and the lock keeps it out
  | .waiting => (manager, .awaiting .waiting)
  | .discovering => (manager, .awaiting .reading)
  | .reading =>
    match build manager answer with
    | none => (manager, .panicked)
    | some built =>
      if manager.cacheDir.isSome then (manager, .awaiting (.creatingDir built))
      else finish manager scope built
  | .creatingDir built => (manager, .awaiting (.writing built))
  | .writing built => finish manager scope built

/-! ## Runs -/

structure State where
  manager : IndexManager
  running : Option (String × Point)

inductive Action where
  | search (scope : Option String)
  | poll (answer : Answer)
  | drop
  | invalidate (component : Option String)
  | invalidateScope (scope : String)

def settle : IndexManager × Progress → State
  | (manager, .awaiting point) => ⟨manager, some (scope, point)⟩
  | (manager, _) => ⟨manager, none⟩

def forget (scope : String) (state : State) : State :=
  { state with manager.indexes := update state.manager.indexes scope none }

variable (state : State)

/-- One step; what needs the lock does nothing while a search holds it. -/
def step : Action → State
  | .search scope =>
    match state.running, scope with
    | none, some scope => settle scope (ensure state.manager scope)
    | _, _ => state
  | .poll answer =>
    match state.running with
    | some (scope, point) => settle scope (resume state.manager scope answer point)
    | none => state
  | .drop => { state with running := none }
  | .invalidate component =>
    match state.running, component with
    | none, some scope => forget scope state
    | _, _ => state
  | .invalidateScope scope => if state.running.isNone then forget scope state else state

def Point.building : Point → Bool
  | .discovering | .reading | .creatingDir _ | .writing _ => true
  | _ => false

/-- The search ends between `inflight.insert` and `inflight.remove`. -/
def abandons : Action → Bool
  | .drop => state.running.any (·.2.building)
  | .poll answer =>
    match state.running with
    | some (_, .reading) => (build state.manager answer).isNone
    | _ => false
  | _ => false

/-- No mark is left without a search, and no search waits. -/
def Served : Prop :=
  (state.running = none → state.manager.inflight = []) ∧
    ∀ scope, state.running ≠ some (scope, .waiting)

def ServedThroughout (state : State) : List Action → Prop
  | [] => Served state
  | action :: rest => Served state ∧ ServedThroughout (step state action) rest

def noneAbandoned (state : State) : List Action → Bool
  | [] => true
  | action :: rest => !abandons state action && noneAbandoned (step state action) rest

/-- A search marks its own scope while it builds, and there is no other mark. -/
def Marked : Prop :=
  match state.running with
  | none => state.manager.inflight = []
  | some (_, .waiting) => False
  | some (scope, point) => state.manager.inflight = if point.building then [scope] else []

/-! ## What a step does to the mark -/

section Marks

variable {manager scope} {state : State} {action : Action}

theorem marked_buildOrWait (empty : manager.inflight = []) :
    Marked (settle scope (buildOrWait manager scope)) := by
  simp [buildOrWait, empty, settle, Marked, Point.building]

theorem marked_loadCached (empty : manager.inflight = []) :
    Marked (settle scope (loadCached manager scope)) := by
  unfold loadCached
  split
  · exact empty
  · exact marked_buildOrWait empty

theorem marked_finish (own : manager.inflight = [scope]) (built : ScopeIndex) :
    Marked (settle scope (finish manager scope built)) := by
  simp [finish, settle, Marked, own]

theorem marked_resume {point : Point} (marked : Marked ⟨manager, some (scope, point)⟩)
    (kept : abandons ⟨manager, some (scope, point)⟩ (.poll answer) = false) :
    Marked (settle scope (resume manager scope answer point)) := by
  cases point with
  | waiting => exact marked.elim
  | checkingLoaded =>
    simp only [resume]
    split
    · exact marked_loadCached marked
    · exact marked
  | loadingCache =>
    simp only [resume]
    split
    · exact marked
    · exact marked_buildOrWait marked
  | checkingCached =>
    simp only [resume]
    split <;> exact marked
  | removingCache => exact marked_buildOrWait marked
  | discovering | creatingDir => exact marked
  | reading =>
    simp only [resume]
    split
    · next panics => simp [abandons, panics] at kept
    · split
      · exact marked
      · exact marked_finish marked _
  | writing => exact marked_finish marked _

theorem marked_step (marked : Marked state) (kept : abandons state action = false) :
    Marked (step state action) := by
  obtain ⟨manager, _ | ⟨scope, point⟩⟩ := state
  · cases action with
    | search scope =>
      rcases scope with _ | scope
      · exact marked
      unfold step ensure
      dsimp only
      split
      · exact marked
      · exact marked_loadCached marked
    | invalidate component => cases component <;> exact marked
    | poll | drop | invalidateScope => exact marked
  · cases action with
    | search | invalidate | invalidateScope => exact marked
    | poll answer => exact marked_resume answer marked kept
    | drop =>
      cases point with
      | waiting => exact marked.elim
      | discovering | reading | creatingDir | writing => cases kept
      | checkingLoaded | loadingCache | checkingCached | removingCache => exact marked

theorem Marked.served (marked : Marked state) : Served state := by
  obtain ⟨manager, _ | ⟨scope, point⟩⟩ := state
  · exact ⟨fun _ => marked, nofun⟩
  · refine ⟨nofun, ?_⟩
    rintro _ ⟨⟩
    exact marked

theorem not_served_step (marked : Marked state) (abandoned : abandons state action = true) :
    ¬ Served (step state action) := by
  rintro ⟨unmarked, -⟩
  obtain ⟨manager, _ | ⟨scope, point⟩⟩ := state
  · cases action <;> cases abandoned
  cases action with
  | search | invalidate | invalidateScope => cases abandoned
  | drop =>
    cases point with
    | discovering | reading | creatingDir | writing => cases marked.symm.trans (unmarked rfl)
    | _ => cases abandoned
  | poll answer =>
    cases point with
    | reading =>
      have panics : build manager answer = none := Option.isNone_iff_eq_none.mp abandoned
      simp only [step, resume, panics, settle] at unmarked
      cases marked.symm.trans (unmarked trivial)
    | _ => cases abandoned

theorem servedThroughout_iff (marked : Marked state) (actions : List Action) :
    ServedThroughout state actions ↔ noneAbandoned state actions = true := by
  induction actions generalizing state with
  | nil => exact iff_of_true marked.served rfl
  | cons action rest ih =>
    cases left : abandons state action with
    | false =>
      have later := ih (marked_step marked left)
      simp [ServedThroughout, noneAbandoned, left, marked.served, later]
    | true =>
      have stuck : ¬ ServedThroughout (step state action) rest := by
        cases rest with
        | nil => exact not_served_step marked left
        | cons => exact fun throughout => not_served_step marked left throughout.1
      simp [ServedThroughout, noneAbandoned, left, stuck]

end Marks

/-- Every search is served exactly when none is dropped or panics while it builds. -/
theorem served_iff_none_abandoned (cacheDir : Option String) (hasEmbedder : Bool)
    (actions : List Action) :
    ServedThroughout ⟨.new cacheDir hasEmbedder, none⟩ actions ↔
      noneAbandoned ⟨.new cacheDir hasEmbedder, none⟩ actions = true := by
  have marked : Marked ⟨.new cacheDir hasEmbedder, none⟩ := rfl
  exact servedThroughout_iff marked actions

/-- The first search is dropped while it builds; the second waits, however often it is polled. -/
theorem dropped_build_blocks_scope :
    let start : State := ⟨.new none false, none⟩
    let dropped := [.search (some "lib"), .drop].foldl step start
    dropped.running = none ∧ dropped.manager.inflight = ["lib"] ∧
      ∀ answers : List Answer, ((answers.map .poll).foldl step
        (step dropped (.search (some "lib")))).running = some ("lib", .waiting) := by
  intro start dropped
  refine ⟨rfl, rfl, fun answers => ?_⟩
  induction answers with
  | nil => rfl
  | cons answer answers ih => exact ih

end Codex.VectorSearch.InflightBuilds
