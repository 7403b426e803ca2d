import VersionAudit.Graph.Flatten
import VersionAudit.Graph.Outcome
import VersionAudit.Step

/-!
# Graph resolvers

1. `Resolver`: what an audit needs to know about the world, graphs and published versions.
2. `Resolver.mapProject` and `Resolver.mapNode`: the nodes of a graph by identity, after recovery.
3. `Resolver.ofTable`: a resolver with fixed answers.
-/

namespace VersionAudit

/-- The source of graphs and versions. -/
structure Resolver (σ : Type) where
  /-- The graph of the declared dependencies of a project. -/
  project : Project → Filter → Step σ Outcome
  /-- The graph of one node of another graph. -/
  node : Node → Filter → Step σ Outcome
  /-- The versions that meet the version specification of an artifact. -/
  versions : Artifact → Step σ (List Version)

/-- How an outcome with unresolved dependencies is treated. -/
structure RecoveryPolicy where
  reactor : List Project := []
  systemMustResolve : Bool := false

namespace Outcome

/-- What is left unresolved fails, unless a repository of the old layout is to blame, which is noted. -/
def accept {σ : Type} (o : Outcome) : Step σ Unit :=
  if o.unresolved.isEmpty then pure ()
  else if o.isLegacyFailure then
    Step.warn ("Could not access a legacy repository for artifacts: " ++
      Text.quotedList (o.unresolved.map (·.text)) ++ "; Reason: " ++
      ((o.cause.map (·.message)).getD ""))
  else Step.fail (.unresolved o.unresolved)

/-- The nodes of the graph by identity, after recovery. -/
def toMap {σ : Type} (policy : RecoveryPolicy) (filter : Filter) (o : Outcome) : Step σ DependencyMap := do
  let (o, recovery) := o.recoverAll policy.reactor policy.systemMustResolve
  Step.ofExcept recovery
  o.accept
  return o.graph.flatten filter.admits

end Outcome

namespace Resolver

variable {σ : Type}

/-- The nodes of a project's graph by identity. -/
def mapProject (r : Resolver σ) (policy : RecoveryPolicy) (p : Project) (f : Filter) :
    Step σ DependencyMap := do
  (← r.project p f).toMap policy f

/-- The nodes of a node's own graph by identity. -/
def mapNode (r : Resolver σ) (policy : RecoveryPolicy) (n : Node) (f : Filter) : Step σ DependencyMap := do
  (← r.node n f).toMap policy f

/-! ## Fixed answers -/

/-- An answer without its root: the nodes, which of them are the children of the root, and what could not be
resolved. -/
structure Answer where
  nodes : List Node := []
  root : List Nat := []
  unresolved : List Dependency := []
  cause : Option Cause := none

/-- The answer as the outcome for an artifact. -/
def Answer.outcome (answer : Answer) (a : Artifact) : Outcome where
  graph :=
    let root : Node := { artifact := a, children := answer.root }
    ⟨(answer.nodes ++ [root]).toArray, answer.nodes.length⟩
  unresolved := answer.unresolved
  cause := answer.cause

/-- Fixed answers by group, name and version. A node without an answer is one whose model is unknown. -/
structure Table where
  projects : List (String × Answer) := []
  nodes : List (String × Option Answer) := []
  /-- Published versions by group and name. -/
  versions : List (String × List Version) := []

/-- The resolver that answers from a table. What is not listed has an empty graph, and its version
specification is met by the version it is written as. -/
def ofTable (t : Table) : Resolver σ where
  project p _ :=
    let answer : Answer := (t.projects.lookup p.text).getD {}
    return answer.outcome p.artifact
  node n _ :=
    match (t.nodes.lookup (n.artifact.path ++ ":" ++ n.artifact.version)).getD (some {}) with
    | some answer => return answer.outcome n.artifact
    | none => Step.fail (.unknownModel n.artifact)
  versions a := return (t.versions.lookup a.path).getD [⟨a.version⟩]

end Resolver

end VersionAudit
