import VersionAudit.Graph.Filter

/-!
# Flattening a graph

What a graph says about identities: which node each of them has, among the children of the root and in the
whole graph. Only nodes that a filter admits are entered. A node is visited once, so shared nodes and cycles do
no harm.
-/

namespace VersionAudit

/-- The admitted nodes of a graph by identity: all of them, and the children of the root. -/
structure DependencyMap where
  all : OrderedMap Identity Node
  direct : OrderedMap Identity Node

namespace Graph

/-- The places visited so far, and the nodes found below the first level. -/
structure Search where
  visited : List Nat := []
  below : OrderedMap Identity Node := ∅

/-- Visits a place of the table. Gives the admitted children by identity, the last of each identity, and adds
what lies deeper to the search, the first of each identity. `fuel` bounds the depth. -/
def visit (g : Graph) (admits : Node → Bool) : (fuel : Nat) → (place : Nat) → Search →
    OrderedMap Identity Node × Search
  | 0, _, s => (∅, s)
  | fuel + 1, place, s =>
    (g.children place).foldl
      (fun (found, s) (i, child) =>
        if !admits child then (found, s)
        else
          let found := found.insert child.identity child
          if s.visited.contains i then (found, s)
          else
            let (deeper, s) := visit g admits fuel i s
            (found, { s with below := s.below.complete deeper }))
      (∅, { s with visited := place :: s.visited })

/-- The admitted nodes of a graph by identity. A direct node takes the place of a deeper one. -/
def flatten (g : Graph) (admits : Node → Bool) : DependencyMap :=
  let (direct, s) := visit g admits (g.nodes.size + 1) g.root {}
  ⟨s.below.update direct, direct⟩

end Graph

end VersionAudit
