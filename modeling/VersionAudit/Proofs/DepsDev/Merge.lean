import VersionAudit.DepsDev.Merge
import VersionAudit.Proofs.Except
import VersionAudit.Proofs.OrderedMap

/-!
# One step of a merge

1. `Package.artifact`, `Pending.nodeOf`: the artifact of a package, and the node it becomes under management.
2. `Merge.adopt`: what a merge is after it has taken a package. `take_eq` says when it does, `take_cases` what else
   can happen.
3. `grow`: the table of nodes with one more of them.
4. `run_keeps`: what taking one package keeps, a whole run keeps.
-/

namespace VersionAudit.DepsDev

namespace Package

/-- What tells packages apart. -/
def key (q : Package) : String × String :=
  (q.group, q.name)

def artifact (q : Package) : Artifact :=
  { group := q.group, name := q.name, version := q.version }

/-- The node of a package that nothing manages, in the scope `compile`. -/
def leaf (q : Package) : Node :=
  { artifact := q.artifact, dependency := some { artifact := q.artifact } }

end Package

namespace Pending

/-- The request for a package below a node, `derived` being the scope that follows from that of the node. -/
def dependencyOf (p : Pending) (q : Package) (derived : String) : Dependency :=
  let entry := p.management.find? q.artifact.path
  { artifact := q.artifact.withVersion (Merge.managedVersion entry q.version).1
    scope := (Merge.managedScope entry derived).1 }

/-- The node of a package below a node. -/
def nodeOf (p : Pending) (q : Package) (derived : String) : Node :=
  let entry := p.management.find? q.artifact.path
  { artifact := (p.dependencyOf q derived).artifact
    dependency := some (p.dependencyOf q derived)
    managed := (if (Merge.managedVersion entry q.version).2 then Node.managedVersion else 0) +
      (if (Merge.managedScope entry derived).2 then Node.managedScope else 0) }

theorem dependencyOf_of_unmanaged {p : Pending} (h : p.management = ∅) (q : Package) (derived : String) :
    p.dependencyOf q derived = { artifact := q.artifact, scope := derived } := by
  unfold dependencyOf
  rw [h]
  rfl

theorem nodeOf_of_unmanaged {p : Pending} (h : p.management = ∅) (q : Package) : p.nodeOf q "compile" = q.leaf := by
  unfold nodeOf
  rw [dependencyOf_of_unmanaged h, h]
  rfl

end Pending

namespace Merge

/-- The table with a node more, below another one. -/
def grow (nodes : Array Node) (parent : Nat) (n : Node) : Array Node :=
  (nodes.modify parent fun p => { p with children := p.children ++ [nodes.size] }).push n

@[simp] theorem size_grow (nodes : Array Node) (parent : Nat) (n : Node) :
    (grow nodes parent n).size = nodes.size + 1 := by
  simp [grow]

/-- The merge after it has taken a package below a node. -/
def adopt (m : Merge) (p : Pending) (target : Int) (q : Package) (derived : String) : Merge where
  nodes := grow m.nodes p.node (p.nodeOf q derived)
  resolved := m.resolved ++ [p.dependencyOf q derived]
  seen := q.key :: m.seen
  queue := m.queue ++
    [{ p with place := target, node := m.nodes.size, scope := (p.dependencyOf q derived).scope }]

/-- A package is taken if it is new, its scope is passed on and it is not excluded. -/
theorem take_eq {p : Pending} {m : Merge} {target : Int} {q : Package} (h : p.graph.package? target = some q) :
    take p m target =
      if m.seen.contains q.key then .ok m
      else
        match Scope.derive p.scope "compile" with
        | none => .ok m
        | some derived => if isExcluded q.artifact p.exclusions then .ok m else .ok (m.adopt p target q derived) := by
  unfold take
  rw [h]
  rfl

/-- An edge leads nowhere, or nothing is taken, or a package is. -/
theorem take_cases (p : Pending) (m : Merge) (target : Int) :
    take p m target = .error .danglingEdge ∨ take p m target = .ok m ∨
      ∃ q derived, take p m target = .ok (m.adopt p target q derived) := by
  -- the three reasons to take nothing: the key was seen, it is excluded, or its scope is not passed on
  cases hq : p.graph.package? target with
  | none =>
    left
    unfold take
    rw [hq]
  | some q =>
    right
    rw [take_eq hq]
    split
    · exact .inl rfl
    · split
      · exact .inl rfl
      · split
        · exact .inl rfl
        · exact .inr ⟨q, _, rfl⟩

/-! ## Runs -/

variable {K : Merge → Prop} {Q : Pending → Prop}

/-- What is kept when a package is taken below a node is kept when all dependencies of the node are looked at. -/
theorem expand_keeps (htake : ∀ {m m' : Merge} {r : Pending} {j : Int}, K m → Q r → take r m j = .ok m' → K m')
    {m m' : Merge} {r : Pending} (h : K m) (hr : Q r) (hexpand : m.expand r = .ok m') : K m' := by
  unfold expand at hexpand
  generalize r.graph.targets r.place = targets at hexpand
  induction targets generalizing m with
  | nil =>
    obtain rfl := Except.ok.inj hexpand
    exact h
  | cons j js ih =>
    rw [List.foldlM_cons] at hexpand
    obtain ⟨m₁, hfirst, hrest⟩ := Except.bind_ok_iff.1 hexpand
    exact ih (htake h hr hfirst) hrest

/-- What is kept when a node leaves the queue, and when a package is taken below it, is kept by a whole run. Of the
nodes that leave the queue `Q` is known. -/
theorem run_keeps (hpop : ∀ {m : Merge} {r : Pending} {rest : List Pending}, K m → m.queue = r :: rest →
      Q r ∧ K { m with queue := rest })
    (htake : ∀ {m m' : Merge} {r : Pending} {j : Int}, K m → Q r → take r m j = .ok m' → K m') {fuel : Nat}
    {m m' : Merge} (h : K m) (hrun : run fuel m = .ok m') : K m' := by
  -- on the steps that are left, one for each node that leaves the queue
  induction fuel generalizing m with
  | zero =>
    obtain rfl := Except.ok.inj hrun
    exact h
  | succ fuel ih =>
    unfold run at hrun
    split at hrun
    · obtain rfl := Except.ok.inj hrun
      exact h
    · rename_i r rest hqueue
      obtain ⟨m₁, hexpand, hrest⟩ := Except.bind_ok_iff.1 hrun
      obtain ⟨hr, hpopped⟩ := hpop h hqueue
      exact ih (expand_keeps htake hpopped hr hexpand) hrest

end Merge

end VersionAudit.DepsDev
