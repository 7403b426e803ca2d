import VersionAudit.Identity

/-!
# Dependency graphs

A resolved graph is a table of nodes. A node lists its children by their places in the table, so nodes may be
shared and cycles are possible. The root stands for what was resolved; nothing requests it.
-/

namespace VersionAudit

/-- A node of a dependency graph. `managed` holds, bit by bit, what dependency management has set. -/
structure Node where
  artifact : Artifact
  dependency : Option Dependency := none
  managed : Nat := 0
  children : List Nat := []
deriving Repr, Inhabited

namespace Node

/-- The bit that says that the version is managed. -/
def managedVersion : Nat := 1

/-- The bit that says that the scope is managed. -/
def managedScope : Nat := 2

/-- Whether the version of a node is managed. -/
def isVersionManaged (n : Node) : Bool :=
  n.managed % 2 == 1

/-- The scope the node was requested in, if it was requested. -/
def scope? (n : Node) : Option String :=
  n.dependency.map (·.scope)

/-- The identity of the node's artifact. -/
def identity (n : Node) : Identity :=
  .ofArtifact n.artifact

/-- The node as text. -/
def text (n : Node) : String :=
  match n.dependency with
  | some d => d.text
  | none => n.artifact.coordinates

end Node

/-- A dependency graph: the table of its nodes, and the place of the root in it. -/
structure Graph where
  nodes : Array Node
  root : Nat
deriving Repr, Inhabited

namespace Graph

/-- The graph of one node. -/
def single (n : Node) : Graph :=
  ⟨#[n], 0⟩

/-- The nodes that a place of the table has as children, with their places. -/
def children (g : Graph) (i : Nat) : List (Nat × Node) :=
  match g.nodes[i]? with
  | some n => n.children.filterMap fun c => g.nodes[c]?.map (c, ·)
  | none => []

/-- The artifact that the graph was resolved for. -/
def rootArtifact (g : Graph) : Artifact :=
  (g.nodes[g.root]?.getD default).artifact

end Graph

end VersionAudit
