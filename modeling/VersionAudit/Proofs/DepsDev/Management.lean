import VersionAudit.Proofs.DepsDev.ProjectGraph

/-!
# Dependency management

What a project manages holds at every node of its graph that it did not declare itself, however deep it hangs. Scopes
follow from the scopes above, which management may have set, so what is said of a node is said with its parent.

1. `Dependency.setVersion?`, `Dependency.setScope?`: what an entry of the management sets.
2. `Managed`: a package as management makes it a node below a node in some scope. `managed_nodeOf`: a merge does.
3. `Manages`, `manages_resolveProject`: all nodes below the declared dependencies of a project are managed.
-/

namespace VersionAudit

namespace Dependency

/-- The version that an entry of the management sets, if it gives one. -/
def setVersion? (entry : Option Dependency) : Option String :=
  (entry.map (·.artifact.version)).filter (· ≠ "")

/-- The scope that an entry of the management sets. The scope `compile` is what is meant if none is given. -/
def setScope? (entry : Option Dependency) : Option String :=
  (entry.map (·.scope)).filter fun scope => scope ≠ "" ∧ scope ≠ "compile"

end Dependency

namespace DepsDev

open Merge

/-! ## One node -/

/-- A node is what an entry of the management, if there is one, makes of a package below a node in some scope. -/
structure Managed (entry : Option Dependency) (q : Package) (above : String) (n : Node) : Prop where
  /-- Dependencies are passed on in these scopes only. -/
  passed : above ∈ ["compile", "runtime", "test", "provided"]
  /-- The version is the one that is set, or else that of the package. -/
  artifact : n.artifact =
    { group := q.group, name := q.name, version := (Dependency.setVersion? entry).getD q.version }
  /-- The scope is the one that is set, or else that of the node above. -/
  request : n.dependency = some { artifact := n.artifact, scope := (Dependency.setScope? entry).getD above }
  /-- The version is marked as managed if one is set. -/
  version : n.managed &&& Node.managedVersion ≠ 0 ↔ (Dependency.setVersion? entry).isSome
  /-- The scope is marked as managed if the one that is set is another one. -/
  scope : n.managed &&& Node.managedScope ≠ 0 ↔ ∃ s, Dependency.setScope? entry = some s ∧ s ≠ above

section Entries

variable (entry : Option Dependency)

/-- The version of a package is the one that its entry sets, if it sets one. -/
theorem managedVersion_eq (version : String) :
    managedVersion entry version =
      ((Dependency.setVersion? entry).getD version, (Dependency.setVersion? entry).isSome) := by
  unfold managedVersion Dependency.setVersion?
  cases entry with
  | none => rfl
  | some e =>
    by_cases h : e.artifact.version = "" <;> simp [Option.filter, h]

/-- Its scope is the one that its entry sets, and counts as managed if that is another one. -/
theorem managedScope_eq (above : String) :
    managedScope entry above = ((Dependency.setScope? entry).getD above,
      decide (∃ s, Dependency.setScope? entry = some s ∧ s ≠ above)) := by
  unfold managedScope Dependency.setScope?
  cases entry with
  | none => simp
  | some e =>
    by_cases hempty : e.scope = ""
    · simp [Option.filter, hempty]
    · by_cases hdefault : e.scope = "compile"
      · simp [Option.filter, hdefault]
      · by_cases hsame : e.scope = above
        · obtain rfl := hsame
          simp [Option.filter, hempty, hdefault]
        · simp [Option.filter, hempty, hdefault, hsame]

end Entries

/-- A dependency that is not restricted to a scope itself has the scope of the node above it. -/
theorem derive_compile {above derived : String} (h : Scope.derive above "compile" = some derived) :
    derived = above ∧ above ∈ ["compile", "runtime", "test", "provided"] := by
  unfold Scope.derive at h
  rw [if_neg (by decide)] at h
  by_cases hcompile : above = "compile"
  · rw [if_pos hcompile] at h
    exact ⟨by rw [hcompile, ← Option.some.inj h], by simp [hcompile]⟩
  · rw [if_neg hcompile] at h
    by_cases hpassed : above = "runtime" ∨ above = "test" ∨ above = "provided"
    · rw [if_pos hpassed] at h
      exact ⟨(Option.some.inj h).symm, by simpa [hcompile] using hpassed⟩
    · rw [if_neg hpassed] at h
      cases h

/-- The two bits can be told apart. -/
theorem managed_bits (version scope : Bool) :
    ((if version then Node.managedVersion else 0) + (if scope then Node.managedScope else 0) &&&
        Node.managedVersion ≠ 0 ↔ version = true) ∧
      ((if version then Node.managedVersion else 0) + (if scope then Node.managedScope else 0) &&&
        Node.managedScope ≠ 0 ↔ scope = true) := by
  cases version <;> cases scope <;> decide

/-- What a merge makes of a package is managed. -/
theorem managed_nodeOf {r : Pending} {q : Package} {derived : String}
    (h : Scope.derive r.scope "compile" = some derived) (more : List Nat) :
    Managed (r.management.find? q.artifact.path) q r.scope (withChildren more (r.nodeOf q derived)) := by
  obtain ⟨rfl, hpassed⟩ := derive_compile h
  obtain ⟨hversion, hscope⟩ := managed_bits (managedVersion (r.management.find? q.artifact.path) q.version).2
    (managedScope (r.management.find? q.artifact.path) r.scope).2
  have hset : (managedVersion (r.management.find? q.artifact.path) q.version).2 =
      (Dependency.setVersion? (r.management.find? q.artifact.path)).isSome :=
    congrArg Prod.snd (managedVersion_eq _ _)
  have hchanged : (managedScope (r.management.find? q.artifact.path) r.scope).2 =
      decide (∃ s, Dependency.setScope? (r.management.find? q.artifact.path) = some s ∧ s ≠ r.scope) :=
    congrArg Prod.snd (managedScope_eq _ _)
  -- the version of the package, unless its entry sets one
  have hartifact : (r.dependencyOf q r.scope).artifact =
      { group := q.group, name := q.name
        version := (Dependency.setVersion? (r.management.find? q.artifact.path)).getD q.version } := by
    unfold Pending.dependencyOf
    dsimp only
    rw [managedVersion_eq]
    rfl
  refine ⟨hpassed, hartifact, ?_, ?_, ?_⟩
  · show some (r.dependencyOf q r.scope) = some { artifact := (r.dependencyOf q r.scope).artifact, scope := _ }
    unfold Pending.dependencyOf
    dsimp only
    rw [managedScope_eq]
  · exact hversion.trans (by rw [hset])
  · exact hscope.trans (by rw [hchanged, decide_eq_true_iff])

/-! ## All nodes -/

/-- What is pending for any entry is managed by the project. -/
theorem AllGrounded.management {p : Project} {answers : Answers (String × String × String) PackageGraph}
    {trail : List Entry} (h : AllGrounded p answers trail) {k : Nat} {e : Entry} (he : trail[k]? = some e) {r : Pending}
    (hr : e.pending = some r) : r.management = p.management := by
  -- by the position of the entry, as an entry that was taken is pending with what the entry above it has
  induction k using Nat.strongRecOn generalizing e r with
  | ind k ih =>
    cases h k e he with
    | declared d graph? given =>
      obtain ⟨graph, -, hself⟩ := Option.bind_eq_some_iff.1 hr
      obtain ⟨s, -, rfl⟩ := Option.map_eq_some_iff.1 hself
      rfl
    | taken derives before stands pending first package spared =>
      obtain rfl := Option.some.inj hr
      have habove := ih _ before stands pending
      exact habove

/-- In the graph of a project, merged from the graphs of its declared dependencies, everything below these is managed;
`index` says at which place of its graph each node stands. -/
structure Manages (p : Project) (answers : Answers (String × String × String) PackageGraph) (tree : Graph)
    (index : Nat → Int) : Prop where
  /-- A declared dependency stands where its graph says. -/
  self : ∀ {c n g s}, (c, n) ∈ tree.children tree.root → Given answers n.artifact (some g) → g.self = some s →
    index c = s
  /-- A node below a declared dependency comes from the graph of that dependency, in which it stands at the first place
  for its package that an edge leads to from the place of the node above it. It is what the management of the project
  makes of the package below that node. -/
  managed : ∀ {c top d x above y n}, (c, top) ∈ tree.children tree.root → tree.Stands c d x →
    tree.nodes[x]? = some above → (y, n) ∈ tree.children x →
    ∃ g q scope, Given answers top.artifact (some g) ∧ g.firstTarget (index x) n.key = some (index y) ∧
      g.package? (index y) = some q ∧ above.scope? = some scope ∧
      Managed (p.management.find? n.artifact.path) q scope n

/-- The tree of a trail is managed. -/
theorem manages_treeOf {p : Project} {answers : Answers (String × String × String) PackageGraph} {trail : List Entry}
    (h : AllGrounded p answers trail) : Manages p answers (treeOf p trail) (indexOf trail) where
  self := self_treeOf h
  managed := by
    intro c top d x above y n hc hx habove hy
    -- the node hangs below one with something pending, whose graph it was found in
    rcases branch_of_stands h hc hx with ⟨k, e, dep, graph?, rfl, he, -, -, hgiven, -, hpending⟩
    rcases mem_children_treeOf h hy with ⟨k', e', more, rfl, he', hparent, rfl⟩
    rcases node_treeOf h he with ⟨more', hnode⟩
    obtain rfl := Option.some.inj (hnode.symm.trans habove)
    cases h k' e' he' with
    | declared d' graph?' given' => cases hparent
    | @taken _ _ r j q _ derives before stands pending first package spared =>
      have hplace := (h _ _ stands).place pending
      obtain rfl : _ = k := Nat.succ.inj (hplace.symm.trans hparent)
      obtain rfl := Option.some.inj (stands.symm.trans he)
      obtain ⟨rfl, -, -⟩ := hpending _ pending
      refine ⟨r.graph, q, r.scope, hgiven, ?_, ?_, (h _ _ stands).scope pending, ?_⟩
      · rw [indexOf_eq he pending, indexOf_eq he' rfl]
        exact first
      · rw [indexOf_eq he' rfl]
        exact package
      · rw [← h.management he pending]
        exact managed_nodeOf derives more

/-- Whatever a project was resolved from, everything below its declared dependencies is managed. -/
theorem manages_resolveProject {σ : Type} {t : Transport σ} {timeout : Int} {p : Project} {f : Filter} {o : Outcome}
    {l l' : Ledger (Memory σ)} (h : (resolveProject t timeout p f).run l = (.ok o, l')) :
    ∃ index, Manages p l'.state.graphs o.graph index := by
  obtain ⟨trail, hgrounded, hgraph⟩ := exists_trail h
  rw [hgraph]
  exact ⟨indexOf trail, manages_treeOf hgrounded⟩

/-! ## A chain -/

namespace Chain

open Crossing (describe edge requestFor)

/-- The graph of `a`: from `a` by `b`, `c` and `d` to `e`. -/
def graph : Json :=
  .object [("nodes", .array [describe "a" "SELF", describe "b" "DIRECT", describe "c" "INDIRECT",
      describe "d" "INDIRECT", describe "e" "INDIRECT"]),
    ("edges", .array [edge 0 1, edge 1 2, edge 2 3, edge 3 4])]

/-- A service that knows this graph and no others. -/
def service : Transport Unit :=
  ⟨fun q s =>
    if q.address = graphAddress (requestFor "a" []).artifact then (.answer 200 graph, s)
    else (.answer 404 .null, s)⟩

def entry (name version scope : String) : String × Dependency :=
  ("g:" ++ name, { artifact := { group := "g", name, version }, scope })

/-- The project declares `a`, and manages the scope of `b`, the version of `c`, and both of `d`. -/
def project : Project :=
  { group := "com.example", name := "app", version := "1", dependencies := [requestFor "a" []]
    management := .ofList [entry "b" "" "runtime", entry "c" "2" "compile", entry "d" "1" "system"] }

/-- The scope of `b` is passed on to `c`. That of `d` is not, so `e` is left out. -/
theorem manages_resolveProject_chain :
    ∃ o l', (resolveProject service 30 project (.scopes Scope.all)).run Crossing.ledger = (.ok o, l') ∧
      (∃ index, Manages project l'.state.graphs o.graph index) ∧
      o.graph.nodes.toList.map (fun n => (n.artifact.name, n.artifact.version, n.scope?, n.managed)) =
        [("app", "1", none, 0), ("a", "1", some "compile", 0), ("b", "1", some "runtime", 2),
          ("c", "2", some "runtime", 1), ("d", "1", some "system", 3)] := by
  have hshape : ((resolveProject service 30 project (.scopes Scope.all)).run Crossing.ledger).1.toOption.map
      (fun o => o.graph.nodes.toList.map fun n => (n.artifact.name, n.artifact.version, n.scope?, n.managed)) =
        some [("app", "1", none, 0), ("a", "1", some "compile", 0), ("b", "1", some "runtime", 2),
          ("c", "2", some "runtime", 1), ("d", "1", some "system", 3)] := by
    decide +kernel
  rcases hrun : (resolveProject service 30 project (.scopes Scope.all)).run Crossing.ledger with ⟨r, l'⟩
  rw [hrun] at hshape
  cases r with
  | error failure => cases hshape
  | ok o => exact ⟨o, l', rfl, manages_resolveProject hrun, Option.some.inj hshape⟩

end Chain

end DepsDev

end VersionAudit
