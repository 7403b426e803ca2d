import VersionAudit.DepsDev.Client
import VersionAudit.DepsDev.Merge
import VersionAudit.Graph.Resolver

/-!
# Resolving through the package service

Every answer of the service is kept, also that something is unknown, and the first answer stored for a question
holds from then on.

1. `Memory`: the answers so far. `kept?`, the query and `store` are steps of their own.
2. `fetchGraph` and `fetchVersions`: an answer from memory, or from the service.
3. `resolver`: graphs of projects and nodes, and the versions that meet a specification.
-/

namespace VersionAudit.DepsDev

/-- The answers kept for a kind of question; `none` is the answer that something is unknown. -/
abbrev Answers (κ α : Type) := OrderedMap κ (Option α)

namespace Answers

variable {κ α : Type} [BEq κ]

/-- The answer kept for a question. -/
def kept? (m : Answers κ α) (question : κ) : Option (Option α) :=
  m.find? question

/-- Keeps an answer unless there is one already. -/
def store (m : Answers κ α) (question : κ) (answer : Option α) : Answers κ α :=
  m.insertNew question answer

end Answers

/-- The state of the transport and the answers kept. -/
structure Memory (σ : Type) where
  transport : σ
  graphs : Answers (String × String × String) PackageGraph := ∅
  versions : Answers (String × String) (List String) := ∅

variable {σ : Type}

/-- A step on the transport alone. -/
def onTransport {α : Type} (step : Step σ α) : Step (Memory σ) α :=
  step.within (·.transport) fun s m => { m with transport := s }

/-- The graph of an artifact, or that it is unknown. -/
def fetchGraph (t : Transport σ) (timeout : Int) (a : Artifact) : Step (Memory σ) (Option PackageGraph) := do
  let key := (a.group, a.name, a.version)
  match (← Step.read).graphs.kept? key with
  | some answer => return answer
  | none =>
    let answer ←
      match ← onTransport (graphAnswer? t timeout a) with
      | none => pure none
      | some j => Step.ofExcept ((PackageGraph.read j).mapError .malformedAnswer)
    if answer.isNone then
      Step.warn ("Unknown component " ++ a.path ++ ":" ++ a.version)
    let memory ← Step.read
    let graphs := memory.graphs.store key answer
    Step.write { memory with graphs }
    return (graphs.kept? key).getD answer

/-- The published versions of a package; an unknown one has none. -/
def fetchVersions (t : Transport σ) (timeout : Int) (group name : String) :
    Step (Memory σ) (List String) := do
  let key := (group, name)
  match (← Step.read).versions.kept? key with
  | some answer => return answer.getD []
  | none =>
    let answer ← onTransport (versionsAnswer? t timeout group name)
    let memory ← Step.read
    let versions := memory.versions.store key answer
    Step.write { memory with versions }
    return ((versions.kept? key).getD answer).getD []

/-! ## Versions -/

/-- The versions that meet the specification of an artifact: a plain version is met by itself, a range by the
published versions in it. -/
def versions (t : Transport σ) (timeout : Int) (a : Artifact) : Step (Memory σ) (List Version) := do
  match VersionRange.read a.version with
  | .error fault => Step.fail (.range fault)
  | .ok range =>
    match range.recommended with
    | some version => return [version]
    | none =>
      let published ← fetchVersions t timeout a.group a.name
      return range.select (published.map Version.mk)

/-- The version chosen for a declared dependency: the one it names, or the highest published one in its range.
A malformed specification is noted and chooses nothing. -/
def chooseVersion (t : Transport σ) (timeout : Int) (d : Dependency) : Step (Memory σ) (Option String) := do
  if d.artifact.version = "" then return none
  match VersionRange.read d.artifact.version with
  | .error fault =>
    Step.warn ("Invalid version specification for " ++ d.text ++ ": " ++ fault.message)
    return none
  | .ok range =>
    if !range.isRange then return some d.artifact.version
    return (← versions t timeout d.artifact).getLast?.map (·.text)

/-! ## Graphs -/

/-- The graph of an artifact that was resolved before. -/
def resolveNode (t : Transport σ) (timeout : Int) (n : Node) : Step (Memory σ) Outcome := do
  let a := n.artifact
  match ← fetchGraph t timeout a with
  | none => Step.fail (.unknownModel a)
  | some graph =>
    match graph.self with
    | none => Step.fail (.unknownModel a)
    | some self =>
      let m ← Step.ofExcept <| Merge.finish
        { nodes := #[{ artifact := a }]
          seen := [(a.group, a.name)]
          queue :=
            [{ graph, place := self, node := 0, scope := "compile", exclusions := [], management := ∅ }] }
      return { graph := ⟨m.nodes, 0⟩, resolved := m.resolved }

/-- What tells declared dependencies apart. -/
abbrev DeclaredKey := String × String × String × String

/-- The graph of a project under construction. -/
structure Draft where
  merge : Merge
  declared : List DeclaredKey := []
  unresolved : List Dependency := []
  cause : Option Cause := none

/-- Notes that a dependency could not be resolved. -/
def Draft.lack (draft : Draft) (d : Dependency) (message : String) : Draft :=
  { draft with unresolved := draft.unresolved ++ [d], cause := some ⟨message, some "default"⟩ }

/-- Adds a declared dependency: once, in its chosen version, and only if the filter admits it. -/
def declare (t : Transport σ) (timeout : Int) (p : Project) (f : Filter) (draft : Draft) (d : Dependency) :
    Step (Memory σ) Draft := do
  let a := d.artifact
  let key : DeclaredKey := (a.group, a.name, a.kind, a.classifier)
  if draft.declared.contains key then return draft
  match ← chooseVersion t timeout d with
  | none => return draft.lack d ("No version found for " ++ d.text)
  | some version =>
    let dependency := { d with artifact := a.withVersion version }
    let node : Node := { artifact := dependency.artifact, dependency := some dependency }
    if !f.admits node then return draft
    let place := draft.merge.nodes.size
    let m := draft.merge.attach 0 node
    let m := { m with seen := (a.group, a.name) :: m.seen }
    let draft := { draft with merge := m, declared := key :: draft.declared }
    match ← fetchGraph t timeout dependency.artifact with
    | none => return draft.lack dependency ("Could not resolve " ++ dependency.artifact.coordinates)
    | some graph =>
      let m := { m with resolved := m.resolved ++ [dependency] }
      match graph.self with
      | none => return { draft with merge := m }
      | some self =>
        let pending : Pending :=
          { graph, place := self, node := place, scope := d.scope, exclusions := d.exclusions,
            management := p.management }
        return { draft with merge := { m with queue := m.queue ++ [pending] } }

/-- The graph of a project. -/
def resolveProject (t : Transport σ) (timeout : Int) (p : Project) (f : Filter) :
    Step (Memory σ) Outcome := do
  let start : Draft := { merge := { nodes := #[{ artifact := p.artifact }], seen := [(p.group, p.name)] } }
  let draft ← p.dependencies.foldlM (declare t timeout p f) start
  let m ← Step.ofExcept draft.merge.finish
  return { graph := ⟨m.nodes, 0⟩, resolved := m.resolved, unresolved := draft.unresolved,
           cause := draft.cause }

/-- The resolver that asks the package service. -/
def resolver (t : Transport σ) (timeout : Int) : Resolver (Memory σ) where
  project := resolveProject t timeout
  node n _ := resolveNode t timeout n
  versions := versions t timeout

end VersionAudit.DepsDev
