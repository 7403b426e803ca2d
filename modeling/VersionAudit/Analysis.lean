import VersionAudit.Graph.Resolver
import VersionAudit.Resolution

/-!
# Analysing a project

The versions that the dependencies of a project expect of each other, held against the versions in the graph of
the project.

1. `Task.run`: what one scanned dependency contributes, its direct request and those of its own dependencies.
2. `collect`: the results of all tasks put together, or all their failures.
3. `analyze`: both for a whole project.
-/

namespace VersionAudit

/-- What the tasks of a project share and change: the source of graphs, and the strategies looked up. -/
structure Bench (σ : Type) where
  source : σ
  assignment : Assignment

/-- What the tasks of a project share and do not change. -/
structure Setting (σ : Type) where
  resolver : Resolver σ
  configuration : Configuration
  project : Project
  reactor : List Project
  /-- The nodes of the project's graph. -/
  root : DependencyMap

/-- The contribution of a task: requests for versions of artifacts. -/
abbrev Contribution := List (Identity × VersionRequest)

namespace Setting

variable {σ : Type}

/-- How unresolved dependencies are treated. -/
def policy (c : Configuration) (reactor : List Project) : RecoveryPolicy :=
  { reactor, systemMustResolve := c.systemMustResolve }

/-- A step on the source of graphs. -/
def onSource {α : Type} (step : Step σ α) : Step (Bench σ) α :=
  step.within (·.source) fun source b => { b with source }

/-- The strategy of an artifact. -/
def strategyFor (n : Identity) : Step (Bench σ) Strategy := do
  let bench ← Step.read
  let (s, assignment) := bench.assignment.strategy n
  Step.write { bench with assignment }
  return s

/-- Whether a combination is covered by a waiver. -/
def isWaived (c : Configuration) (n : Node) (expected resolved : Version) : Bool :=
  c.waivers.any (·.covers n expected resolved)

/-- Whether an artifact that is expected in one version and resolved in another is in conflict: its strategy
rejects the combination, and no waiver covers it. -/
def inConflict (s : Setting σ) (n : Node) (name : Identity) (expected resolved : Version) :
    Step (Bench σ) Bool := do
  if isWaived s.configuration n expected resolved then return false
  else return !(← strategyFor name).isCompatible expected resolved

/-- The request of the project itself for a declared dependency. -/
def directRequest (s : Setting σ) (d : Dependency) (n : Node) :
    Step (Bench σ) (Identity × VersionRequest) := do
  let name := Identity.ofArtifact d.artifact
  let model := d.artifact.model
  -- A time stamp would match no specification.
  let model := if model.isSnapshot then model.withVersion model.baseVersion else model
  let versions ← onSource (s.resolver.versions model)
  let resolved : Version := ⟨n.artifact.version⟩
  if !versions.any (· == resolved) then Step.fail (.inconsistent d n.artifact.version)
  else
    let conflict ← s.inConflict n name resolved resolved
    let request : Request :=
      { requester := .ofProject s.project, managed := n.isVersionManaged, direct := true, conflict }
    return (name, ⟨resolved, request⟩)

/-- The nodes that a dependency passes on: admitted by the filter and not optional. -/
def passedOn (f : Filter) (nodes : List Node) : Except Failure (List Node) :=
  (nodes.filter f.admits).filterMapM fun n =>
    match n.dependency with
    | some d => .ok (if d.isOptional then none else some n)
    | none => .error (.unrequested "optional")

/-- The request of a dependency for the version of one of its own dependencies. An artifact that is not in the
graph of the project was displaced there and is not used. -/
def transitiveRequest (s : Setting σ) (requester : Identity) (n : Node) :
    Step (Bench σ) (Option (Identity × VersionRequest)) := do
  let name := n.identity
  match s.root.all.find? name with
  | none => return none
  | some selected =>
    let resolved : Version := ⟨selected.artifact.version⟩
    let expected : Version := ⟨n.artifact.version⟩
    let conflict ← s.inConflict n name expected resolved
    let request : Request := { requester, managed := selected.isVersionManaged, conflict }
    return some (name, ⟨expected, request⟩)

/-- The requests of a dependency for the versions of its own dependencies. -/
def transitiveRequests (s : Setting σ) (d : Dependency) (n : Node) (f : Filter) :
    Step (Bench σ) Contribution := do
  let filter := Filter.all [f, .excluding d.exclusions]
  let map ← onSource (s.resolver.mapNode (policy s.configuration s.reactor) n filter)
  let nodes ← Step.ofExcept (passedOn f map.all.values)
  nodes.filterMapM (s.transitiveRequest (.ofArtifact d.artifact))

/-- A node that the filter has to admit. -/
def checkVisible (visible : Filter) (d : Dependency) (n : Node) : Step (Bench σ) Unit :=
  if visible.admits n then pure () else Step.fail (.hidden d n)

/-- The transitive part of a task. A model that cannot be read is left out. -/
def transitivePart (s : Setting σ) (d : Dependency) (n : Node) : Step (Bench σ) Contribution := do
  let f ← Step.ofExcept (Filter.passedOn d.scope)
  match ← Step.outcome (s.transitiveRequests d n f) with
  | .ok requests => return requests
  | .error failure =>
    if failure.isUnreadableModel then
      if !n.children.isEmpty then
        Step.warn ("Could not read POM for " ++ d.text ++ ", ignoring project and its dependencies!")
      return []
    else Step.fail failure

/-- The direct part of a task, which only a direct dependency has. -/
def directPart (s : Setting σ) (visible : Filter) (d : Dependency) : Step (Bench σ) Contribution :=
  match s.root.direct.find? (.ofArtifact d.artifact) with
  | none => return []
  | some n => do
    checkVisible visible d n
    return [← s.directRequest d n]

/-- What a scanned dependency contributes. One that is not in the graph of the project contributes nothing, and
one from the system has no dependencies. -/
def contribution (s : Setting σ) (visible : Filter) (d : Dependency) : Step (Bench σ) Contribution := do
  let direct ← s.directPart visible d
  match s.root.all.find? (.ofArtifact d.artifact) with
  | none => return direct
  | some n =>
    checkVisible visible d n
    if d.scope = "system" then return direct
    else return direct ++ (← s.transitivePart d n)

/-- The task of a scanned dependency, or of a node that nothing requests. -/
def task (s : Setting σ) (visible : Filter) : Option Dependency → Step (Bench σ) Contribution
  | some d => s.contribution visible d
  | none => Step.fail (.unrequested "artifact")

/-- The dependencies that are scanned: the declared ones, or those of all nodes of the graph. -/
def scanned (s : Setting σ) : List (Option Dependency) :=
  if s.configuration.deepScan then s.root.all.values.map (·.dependency)
  else s.project.dependencies.map some

end Setting

/-! ## Putting the tasks together -/

/-- The end of a task: its dependency with its contribution or its failure. -/
abbrev TaskEnd := Option Dependency × Except Failure Contribution

namespace TaskEnd

/-- The dependency as text. -/
def subject (e : TaskEnd) : String :=
  match e.1 with
  | some d => d.text
  | none => "None"

/-- The message of a failed task, unless its failure names dependencies. -/
def message? (e : TaskEnd) : Option String :=
  match e.2 with
  | .ok _ => none
  | .error (.unresolved _) => none
  | .error failure => some (e.subject ++ ": " ++ failure.message)

/-- The unresolved dependencies of a failed task. -/
def unresolved (e : TaskEnd) : List String :=
  match e.2 with
  | .error (.unresolved dependencies) => dependencies.map (·.text)
  | _ => []

/-- Whether the task failed. -/
def isFailure (e : TaskEnd) : Bool :=
  match e.2 with
  | .ok _ => false
  | .error _ => true

/-- What the task contributes. -/
def requests (e : TaskEnd) : Contribution :=
  match e.2 with
  | .ok requests => requests
  | .error _ => []

end TaskEnd

/-- The map of all contributions, or all failures in one. -/
def collect (ends : List TaskEnd) : Except Failure ResolutionMap :=
  if ends.any (·.isFailure) then
    .error (.ofParts (ends.filterMap (·.message?)) (ends.flatMap (·.unresolved)))
  else .ok (.ofList (ends.flatMap (·.requests)))

namespace Setting

variable {σ : Type}

/-- The resolution map of a project for what a filter makes visible. -/
def resolutionMap (s : Setting σ) (visible : Filter) : Step (Bench σ) ResolutionMap := do
  let ends ← s.scanned.mapM fun d => do return (d, ← Step.outcome (s.task visible d))
  Step.ofExcept (collect ends)

end Setting

/-! ## A whole project -/

/-- The resolution map of a project, with what is needed to report on it. -/
structure Analysis where
  project : Project
  requests : ResolutionMap
  root : DependencyMap
  assignment : Assignment

/-- A note of a command on its progress. -/
def progress {σ : Type} (c : Configuration) (text : String) : Step σ Unit :=
  if c.quiet then pure () else Step.note .info .command text

/-- Analyses a project. A project that is skipped has no analysis. -/
def analyze {σ : Type} (resolver : Resolver σ) (registry : Registry) (c : Configuration)
    (reactor : List Project) (project : Project) : Step σ (Option Analysis) := do
  match c.fault? with
  | some fault => Step.fail (.configuration fault)
  | none =>
    if c.skip then
      progress c "Skipping execution"
      return none
    else if !c.includePomProjects && project.packaging == "pom" then
      progress c ("Ignoring POM project " ++ project.text)
      return none
    else
      let assignment ← Step.ofExcept
        ((Assignment.make registry c.rules c.defaultStrategy).mapError .assignment)
      let visible ← Step.ofExcept (Filter.visible c.scope)
      let root ← resolver.mapProject (Setting.policy c reactor) project visible
      let setting : Setting σ := { resolver, configuration := c, project, reactor, root }
      let ledger ← get
      let (result, bench) := (setting.resolutionMap visible).run ⟨⟨ledger.state, assignment⟩, ledger.notes⟩
      set (⟨bench.state.source, bench.notes⟩ : Ledger σ)
      let requests ← Step.ofExcept result
      return some { project, requests, root, assignment := bench.state.assignment }

end VersionAudit
