import VersionAudit.DepsDev.PackageGraph
import VersionAudit.Graph.Outcome

/-!
# Merging package graphs

The graph of a project is put together from the graphs of its direct dependencies, level by level over all of
them at once. A package is taken at the first place where it is reached, so the nearest one wins, and it appears
once. On the way down the exclusions of the direct dependency hold, the dependency management of the project
sets versions and scopes, and the scope of a node follows from that of its parent.
-/

namespace VersionAudit.DepsDev

/-- A node whose dependencies are still to be looked at. -/
structure Pending where
  /-- The graph the node comes from, and its place there. -/
  graph : PackageGraph
  place : Int
  /-- The place of the node in the merged graph. -/
  node : Nat
  scope : String
  exclusions : List Exclusion
  management : OrderedMap String Dependency

/-- A merge under way. -/
structure Merge where
  nodes : Array Node
  resolved : List Dependency := []
  /-- Group and name of every package taken. -/
  seen : List (String × String) := []
  /-- Nodes to be looked at, the nearest first. -/
  queue : List Pending := []

namespace Merge

/-- Adds a node below another one. -/
def attach (m : Merge) (parent : Nat) (n : Node) : Merge :=
  { m with
    nodes := (m.nodes.modify parent fun p => { p with children := p.children ++ [m.nodes.size] }).push n }

/-- The version of a package under dependency management, and whether it is managed. -/
def managedVersion (entry : Option Dependency) (version : String) : String × Bool :=
  match entry with
  | some e => if e.artifact.version = "" then (version, false) else (e.artifact.version, true)
  | none => (version, false)

/-- The scope of a node under dependency management, and whether it is managed. Management in the scope
`compile` is no management of the scope. -/
def managedScope (entry : Option Dependency) (scope : String) : String × Bool :=
  match entry with
  | some e =>
    if e.scope ≠ "" ∧ e.scope ≠ "compile" ∧ e.scope ≠ scope then (e.scope, true) else (scope, false)
  | none => (scope, false)

/-- Looks at the package that an edge leads to, and takes it if it is new, passed on and not excluded. -/
def take (p : Pending) (m : Merge) (target : Int) : Except Failure Merge :=
  match p.graph.package? target with
  | none => .error .danglingEdge
  | some package =>
    let key := (package.group, package.name)
    let found : Artifact := { group := package.group, name := package.name, version := package.version }
    if m.seen.contains key then .ok m
    else
      match Scope.derive p.scope "compile" with
      | none => .ok m
      | some derived =>
        if isExcluded found p.exclusions then .ok m
        else
          let entry := p.management.find? found.path
          let (version, versionManaged) := managedVersion entry package.version
          let (scope, scopeManaged) := managedScope entry derived
          let dependency : Dependency := { artifact := found.withVersion version, scope }
          let node : Node :=
            { artifact := dependency.artifact
              dependency := some dependency
              managed := (if versionManaged then Node.managedVersion else 0) +
                (if scopeManaged then Node.managedScope else 0) }
          let place := m.nodes.size
          let m := m.attach p.node node
          .ok
            { m with
              resolved := m.resolved ++ [dependency]
              seen := key :: m.seen
              queue := m.queue ++ [{ p with place := target, node := place, scope }] }

/-- Looks at all dependencies of a node. -/
def expand (m : Merge) (p : Pending) : Except Failure Merge :=
  (p.graph.targets p.place).foldlM (take p) m

/-- Works off the queue; `fuel` bounds the number of nodes looked at. -/
def run : (fuel : Nat) → Merge → Except Failure Merge
  | 0, m => .ok m
  | fuel + 1, m =>
    match m.queue with
    | [] => .ok m
    | p :: rest => do run fuel (← { m with queue := rest }.expand p)

/-- A bound for the nodes to be looked at: those in the queue, and every package of their graphs. -/
def bound (m : Merge) : Nat :=
  m.queue.foldl (fun n p => n + p.graph.packages.size + 1) 1

/-- Merges all that the queue leads to. -/
def finish (m : Merge) : Except Failure Merge :=
  run m.bound m

end Merge

end VersionAudit.DepsDev
