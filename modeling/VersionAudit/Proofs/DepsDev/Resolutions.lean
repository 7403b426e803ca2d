import VersionAudit.DepsDev.Resolver
import VersionAudit.Proofs.DepsDev.Tree
import VersionAudit.Proofs.Step

/-!
# Resolving one graph

Where only one graph is involved, a resolution is one walk through it.

1. `exists_resolveNode`: an artifact that is resolved for itself. All packages other than its own are open.
2. `exists_resolveProject`: a project that declares one dependency. What the exclusions of the dependency cover is
   not open.
-/

namespace VersionAudit.DepsDev

open PackageGraph

namespace PackageGraph

variable (g : PackageGraph)

/-- No exclusion covers the package at a place. -/
def Spares (exclusions : List Exclusion) (j : Int) : Prop :=
  ∃ q, g.package? j = some q ∧ isExcluded q.artifact exclusions = false

/-- Whether the package at a place is another one than an artifact, whatever the versions. -/
def isOther (a : Artifact) (j : Int) : Bool :=
  match g.package? j with
  | some q => q.key != (a.group, a.name)
  | none => false

/-- A graph that was given for an artifact: it says where the artifact itself stands. -/
structure IsGraphOf (place : Nat) (a : Artifact) : Prop where
  wellFormed : g.WellFormed
  own : g.self = some place
  root : ∃ q, g.packages[place]? = some q ∧ q.key = (a.group, a.name)

variable {g}

/-- A place is spared if its package is not excluded. -/
theorem spares_iff {exclusions : List Exclusion} {j : Int} {q : Package} (hq : g.package? j = some q) :
    g.Spares exclusions j ↔ isExcluded q.artifact exclusions = false := by
  unfold Spares
  simp [hq]

theorem isOther_eq_true {a : Artifact} {j : Int} {q : Package} (hq : g.package? j = some q) :
    g.isOther a j = true ↔ q.key ≠ (a.group, a.name) := by
  unfold isOther
  rw [hq]
  exact bne_iff_ne

/-- In the graph of an artifact all places but one are those of other packages. -/
theorem IsGraphOf.isOther_iff {s : Nat} {a : Artifact} (hg : g.IsGraphOf s a) {i j : Int} (h : j ∈ g.targets i) :
    g.isOther a j = true ↔ j ≠ s := by
  rcases hg.wellFormed.exists_package h with ⟨q, hq⟩
  rcases hg.wellFormed.edges i j h with ⟨hle, -⟩
  rcases hg.root with ⟨r, hr, hkey⟩
  rw [isOther_eq_true hq, ← hkey]
  rw [package?_of_nonneg hle] at hq
  constructor
  · rintro hne rfl
    rw [Int.toNat_natCast, hr, Option.some.injEq] at hq
    exact hne (congrArg Package.key hq.symm)
  · intro hne heq
    -- keys are distinct in the graph, so that an equal key is the same place
    have hplace := hg.wellFormed.distinct _ _ q r hq hr heq
    omega

end PackageGraph

section Resolutions

variable {σ : Type} {t : Transport σ} {timeout : Int} {g : PackageGraph} {s : Nat} {a : Artifact}

/-! ## An artifact for itself -/

/-- What is pending for an artifact that is resolved for itself. -/
def ownPending (g : PackageGraph) (s : Nat) : Pending :=
  { graph := g, place := s, node := 0, scope := "compile", exclusions := [], management := ∅ }

/-- The merge that resolves an artifact for itself. -/
def ownMerge (g : PackageGraph) (s : Nat) (a : Artifact) : Merge :=
  { nodes := #[{ artifact := a }], seen := [(a.group, a.name)], queue := [ownPending g s] }

/-- The graph of an artifact is walked by itself from its own place. -/
theorem alone_own (hg : g.IsGraphOf s a) : Alone (ownPending g s) (ownMerge g s a) where
  graph := hg.wellFormed
  scope := rfl
  management := rfl
  queue := rfl
  size := rfl
  start := ⟨{ artifact := a }, rfl, rfl⟩

/-- From there all places of other artifacts are open. -/
theorem isOpen_own (g : PackageGraph) (s : Nat) (a : Artifact) :
    isOpen (ownPending g s) (ownMerge g s a) = g.isOther a := by
  funext j
  cases hq : g.package? j with
  | none =>
    unfold isOpen isOther
    show (match g.package? j with | some q => _ | none => _) = _
    rw [hq]
  | some q =>
    rw [Bool.eq_iff_iff, isOpen_eq_true hq, isOther_eq_true hq]
    simp [ownMerge, ownPending, isExcluded]

/-- An artifact whose graph is known is resolved for itself by one walk. -/
theorem exists_resolveNode (hg : g.IsGraphOf s a) {n : Node} (hn : n.artifact = a) {k k' : Ledger (Memory σ)}
    (hfetch : (fetchGraph t timeout a).run k = (.ok (some g), k')) :
    ∃ edges o, (resolveNode t timeout n).run k = (.ok o, k') ∧ o.unresolved = [] ∧ g.Settled (g.isOther a) s edges ∧
      o.graph = grown (ownPending g s) (ownMerge g s a) edges 0 := by
  -- nothing else is pending, so that the merge is one walk from the place of the artifact
  rcases finish_alone (alone_own hg) with ⟨edges, m, hfinish, hsettled, hnodes⟩
  rw [isOpen_own] at hsettled hnodes
  refine ⟨edges, { graph := ⟨m.nodes, 0⟩, resolved := m.resolved }, ?_, rfl, hsettled, ?_⟩
  · unfold resolveNode
    rw [hn, Step.run_bind, hfetch]
    simp only [hg.own]
    show (Step.ofExcept (ownMerge g s a).finish >>= _ : Step (Memory σ) Outcome).run k' = _
    rw [Step.run_bind, Step.run_ofExcept, hfinish]
    rfl
  · unfold grown
    rw [hnodes, isOpen_own]

/-! ## A project with one dependency -/

/-- The request for a dependency in its chosen version. -/
def inVersion (d : Dependency) (version : String) : Dependency :=
  { d with artifact := d.artifact.withVersion version }

/-- The node of a declared dependency. -/
def declaredNode (d : Dependency) : Node :=
  { artifact := d.artifact, dependency := some d }

/-- What is pending for the only declared dependency of a project. -/
def declaredPending (g : PackageGraph) (s : Nat) (p : Project) (d : Dependency) : Pending :=
  { graph := g, place := s, node := 1, scope := d.scope, exclusions := d.exclusions, management := p.management }

/-- The merge that resolves a project with one declared dependency, given in its chosen version. -/
def declaredMerge (g : PackageGraph) (s : Nat) (p : Project) (d : Dependency) : Merge :=
  { nodes := Merge.grow #[{ artifact := p.artifact }] 0 (declaredNode d), resolved := [d]
    seen := [(d.artifact.group, d.artifact.name), (p.group, p.name)], queue := [declaredPending g s p d] }

/-- The draft of a project before its dependencies are looked at. -/
def emptyDraft (p : Project) : Draft :=
  { merge := { nodes := #[{ artifact := p.artifact }], seen := [(p.group, p.name)] } }

/-- A project that declares one dependency, in the scope `compile`, manages nothing and is not among the packages
of a graph. -/
structure OnlyDeclares (p : Project) (d : Dependency) (g : PackageGraph) : Prop where
  dependencies : p.dependencies = [d]
  scope : d.scope = "compile"
  management : p.management = ∅
  apart : ∀ (i : Nat) (q : Package), g.packages[i]? = some q → q.key ≠ (p.group, p.name)

section Declared

variable {p : Project} {d chosen : Dependency} {version : String} (hchosen : inVersion d version = chosen)
  (hg : g.IsGraphOf s chosen.artifact) (hp : OnlyDeclares p d g)

include hchosen hg hp

theorem alone_declared : Alone (declaredPending g s p chosen) (declaredMerge g s p chosen) := by
  subst hchosen
  exact ⟨hg.wellFormed, hp.scope, hp.management, rfl, rfl, ⟨declaredNode (inVersion d version), rfl, rfl⟩⟩

/-- A place that an edge leads to is open below a declared dependency if it is another one than that of the
dependency and no exclusion covers it. -/
theorem isOpen_declared (i j : Int) (hj : j ∈ g.targets i) :
    isOpen (declaredPending g s p chosen) (declaredMerge g s p chosen) j = true ↔
      j ≠ s ∧ g.Spares d.exclusions j := by
  subst hchosen
  rcases hg.wellFormed.exists_package hj with ⟨q, hq⟩
  -- the other key that is taken is that of the project, which its own graphs do not have
  have hproject : q.key ≠ (p.group, p.name) := by
    rw [package?_of_nonneg (hg.wellFormed.edges i j hj).1] at hq
    exact hp.apart _ q hq
  rw [isOpen_eq_true hq, spares_iff hq, ← hg.isOther_iff hj, isOther_eq_true hq]
  show q.key ∉ [((inVersion d version).artifact.group, (inVersion d version).artifact.name), (p.group, p.name)] ∧
    isExcluded q.artifact d.exclusions = false ↔ _
  simp [hproject]

omit hp in
/-- The declared dependency becomes a node below the root, and its graph is looked at next. -/
theorem run_declare {f : Filter} {l l₁ l₂ : Ledger (Memory σ)}
    (hchoose : (chooseVersion t timeout d).run l = (.ok (some version), l₁))
    (hadmits : f.admits (declaredNode chosen) = true)
    (hfetch : (fetchGraph t timeout chosen.artifact).run l₁ = (.ok (some g), l₂)) :
    (declare t timeout p f (emptyDraft p) d).run l =
      (.ok { merge := declaredMerge g s p chosen
             declared := [(d.artifact.group, d.artifact.name, d.artifact.kind, d.artifact.classifier)] }, l₂) := by
  subst hchosen
  -- nothing was declared before, so that the dependency is not a repeated one
  have hnew : (emptyDraft p).declared.contains
      (d.artifact.group, d.artifact.name, d.artifact.kind, d.artifact.classifier) = false := rfl
  unfold declaredNode inVersion at hadmits
  unfold inVersion at hfetch
  unfold declare
  simp only [hnew, Bool.false_eq_true, if_false]
  rw [Step.run_bind, hchoose]
  simp only [hadmits, Bool.not_true, Bool.false_eq_true, if_false]
  rw [Step.run_bind, hfetch]
  simp only [hg.own]
  rfl

/-- A project that only declares one dependency is resolved by one walk. -/
theorem exists_resolveProject {f : Filter} {l l₁ l₂ : Ledger (Memory σ)}
    (hchoose : (chooseVersion t timeout d).run l = (.ok (some version), l₁))
    (hadmits : f.admits (declaredNode chosen) = true)
    (hfetch : (fetchGraph t timeout chosen.artifact).run l₁ = (.ok (some g), l₂)) :
    ∃ edges o, (resolveProject t timeout p f).run l = (.ok o, l₂) ∧
      g.Settled (isOpen (declaredPending g s p chosen) (declaredMerge g s p chosen)) s edges ∧
      o.graph = grown (declaredPending g s p chosen) (declaredMerge g s p chosen) edges 0 := by
  rcases finish_alone (alone_declared hchosen hg hp) with ⟨edges, m, hfinish, hsettled, hnodes⟩
  refine ⟨edges, { graph := ⟨m.nodes, 0⟩, resolved := m.resolved }, ?_, hsettled, ?_⟩
  · unfold resolveProject
    rw [hp.dependencies]
    -- the loop over the declared dependencies has one turn
    show ([d].foldlM (declare t timeout p f) (emptyDraft p) >>= _ : Step (Memory σ) Outcome).run l = _
    rw [List.foldlM_cons, Step.run_bind, Step.run_bind, run_declare hchosen hg hchoose hadmits hfetch]
    simp only [List.foldlM_nil, Step.run_pure, Step.run_bind, Step.run_ofExcept, hfinish]
  · unfold grown
    rw [hnodes]

/-- The node of the declared dependency is the only child of the root. -/
theorem mem_children_root {edges : List (Nat × Int)}
    (hsettled : g.Settled (isOpen (declaredPending g s p chosen) (declaredMerge g s p chosen)) s edges) {c : Nat} :
    (∃ m, (c, m) ∈ (grown (declaredPending g s p chosen) (declaredMerge g s p chosen) edges 0).children 0 ∧
      m.dependency = some chosen) ↔ c = 1 := by
  have halone := alone_declared hchosen hg hp
  have hroot := grown_nodes halone hsettled 0 0
  have hnode := grown_nodes halone hsettled 0 1
  -- what hits are put below stands behind the root
  have hbelow : below (declaredPending g s p chosen) (declaredMerge g s p chosen)
      (hits (isOpen (declaredPending g s p chosen) (declaredMerge g s p chosen)) edges) 0 = [] := by
    rw [List.eq_nil_iff_forall_not_mem]
    intro c hc
    rcases mem_below.1 hc with ⟨i, k, j, -, hk, -⟩
    have hone : (declaredPending g s p chosen).node = 1 := rfl
    omega
  rw [hbelow] at hroot
  constructor
  · rintro ⟨m, hmem, -⟩
    rcases Graph.mem_children.1 hmem with ⟨r, hr, hc, -⟩
    rw [hroot] at hr
    have hchildren : r.children = [1] := by
      rw [← Option.some.inj hr]
      rfl
    rw [hchildren] at hc
    exact List.mem_singleton.1 hc
  · rintro rfl
    refine ⟨_, Graph.mem_children.2 ⟨_, hroot, ?_, hnode⟩, rfl⟩
    exact List.mem_singleton.2 rfl

end Declared

end Resolutions

end VersionAudit.DepsDev
