import VersionAudit.Proofs.DepsDev.Coverage

/-!
# The nearest package wins

What can be said of the graph of a project without a look at how it came about: it is a tree, each package stands in
it once, and as near to the project as an edge led to it.

1. `NearestWins`: the tree of a project, for given graphs of its declared dependencies.
2. `stands_iff`: depths and branches in the tree of a trail are those of the entries.
3. `nearestWins_of_tracked`: the tree at the end of a merge has the property.
-/

namespace VersionAudit

/-- A node that was not declared, at a depth below the child `c` of the root. -/
def Graph.Transitive (g : Graph) (c d x : Nat) (n : Node) : Prop :=
  g.Stands c d x ∧ 2 ≤ d ∧ g.nodes[x]? = some n

namespace DepsDev

/-- The graph of a project that was merged from the graphs of its declared dependencies, where `index` says at which
place of its graph each node stands. -/
structure NearestWins (p : Project) (answers : Answers (String × String × String) PackageGraph) (tree : Graph)
    (index : Nat → Int) : Prop where
  /-- The children of the root were requested. -/
  declared : ∀ {c n}, (c, n) ∈ tree.children tree.root → ∃ d, n.dependency = some d ∧ n.artifact = d.artifact
  /-- A node has one depth, below one child of the root. -/
  unique : ∀ {c c' d d' x}, tree.Stands c d x → tree.Stands c' d' x → c = c' ∧ d = d'
  /-- A declared dependency stands where its graph says. -/
  self : ∀ {c n g s}, (c, n) ∈ tree.children tree.root → Given answers n.artifact (some g) → g.self = some s →
    index c = s
  /-- Something hangs below a declared dependency only if its graph is known and says where it stands. -/
  known : ∀ {c n d x m}, (c, n) ∈ tree.children tree.root → tree.Transitive c d x m →
    ∃ g, Given answers n.artifact (some g) ∧ g.self.isSome
  /-- Any other node stands at the first place for its package that an edge leads to from the place of its parent. -/
  first : ∀ {c n g d x y m}, (c, n) ∈ tree.children tree.root → Given answers n.artifact (some g) →
    tree.Stands c d x → (y, m) ∈ tree.children x → g.firstTarget (index x) m.key = some (index y)
  /-- No other node is the project or a declared dependency. -/
  apart : ∀ {c d x m}, tree.Transitive c d x m →
    m.key ≠ (p.group, p.name) ∧ ∀ {c' n}, (c', n) ∈ tree.children tree.root → m.key ≠ n.key
  /-- No package stands at two places. -/
  once : ∀ {c c' d d' x x' m m'}, tree.Transitive c d x m → tree.Transitive c' d' x' m' → m.key = m'.key → x = x'
  /-- Where dependencies are passed on, each edge to a package that the declared dependency does not exclude leads to
  the project, to a declared dependency, or to a node at most one deeper. -/
  nearest : ∀ {c n dep g d x m scope j q}, (c, n) ∈ tree.children tree.root → n.dependency = some dep →
    Given answers n.artifact (some g) → g.self.isSome → tree.Stands c d x → tree.nodes[x]? = some m →
    m.scope? = some scope → scope ∈ ["compile", "runtime", "test", "provided"] → j ∈ g.targets (index x) →
    g.package? j = some q → isExcluded q.artifact dep.exclusions = false →
    q.key = (p.group, p.name) ∨ (∃ c' n', (c', n') ∈ tree.children tree.root ∧ n'.key = q.key) ∨
      ∃ c' d' x' m', tree.Transitive c' d' x' m' ∧ m'.key = q.key ∧ d' ≤ d + 1
  /-- What a declared dependency excludes does not hang below it. -/
  spared : ∀ {c n dep d x m}, (c, n) ∈ tree.children tree.root → n.dependency = some dep → tree.Transitive c d x m →
    isExcluded m.artifact dep.exclusions = false

section Tree

variable {p : Project} {answers : Answers (String × String × String) PackageGraph} {trail : List Entry}

/-- The tree of a trail. -/
def treeOf (p : Project) (trail : List Entry) : Graph :=
  planted { artifact := p.artifact } (trail.map Entry.leaf)

/-- The place in its graph of the node at a place of the tree. -/
def indexOf (trail : List Entry) (x : Nat) : Int :=
  ((trail[x - 1]?.bind Entry.pending).map Pending.place).getD 0

theorem indexOf_eq {k : Nat} {e : Entry} {r : Pending} (he : trail[k]? = some e) (hr : e.pending = some r) :
    indexOf trail (k + 1) = r.place := by
  unfold indexOf
  rw [Nat.add_sub_cancel, he, Option.bind_some, hr]
  rfl

theorem Given.unique {a : Artifact} {graph? graph?' : Option PackageGraph} (h : Given answers a graph?)
    (h' : Given answers a graph?') : graph? = graph?' :=
  Option.some.inj (Eq.trans (Eq.symm h) h')

section Grounded

variable (h : AllGrounded p answers trail)

include h

/-- A node is put below one that is there already. -/
theorem early_leaves (i x : Nat) (n : Node) (hleaf : (trail.map Entry.leaf)[i]? = some (x, n)) : x ≤ i := by
  rw [List.getElem?_map] at hleaf
  obtain ⟨e, he, hpair⟩ := Option.map_eq_some_iff.1 hleaf
  obtain rfl : e.parent = x := congrArg Prod.fst hpair
  exact h.parent_le he

theorem bare_leaves : ∀ leaf ∈ trail.map Entry.leaf, leaf.2.children = [] := by
  intro leaf hleaf
  rcases List.mem_map.1 hleaf with ⟨e, he, rfl⟩
  obtain ⟨k, hk⟩ := List.mem_iff_getElem?.1 he
  exact (h k e hk).bare

/-- The node of an entry, which may have got children. -/
theorem node_treeOf {k : Nat} {e : Entry} (he : trail[k]? = some e) :
    ∃ more, (treeOf p trail).nodes[k + 1]? = some (withChildren more e.node) := by
  unfold treeOf
  rw [getElem?_planted_succ (early_leaves h), List.getElem?_map, he]
  exact ⟨_, rfl⟩

/-- A child below the root is the node of an entry that was put below its parent. -/
theorem mem_children_treeOf {x y : Nat} {n : Node} (hy : (y, n) ∈ (treeOf p trail).children x) :
    ∃ k e more, y = k + 1 ∧ trail[k]? = some e ∧ e.parent = x ∧ n = withChildren more e.node := by
  rcases (mem_children_planted (early_leaves h) rfl (bare_leaves h)).1 hy with ⟨k, n', rfl, hleaf, rfl⟩
  rw [List.getElem?_map] at hleaf
  obtain ⟨e, he, hpair⟩ := Option.map_eq_some_iff.1 hleaf
  obtain rfl : e.parent = x := congrArg Prod.fst hpair
  obtain rfl : e.node = n' := congrArg Prod.snd hpair
  exact ⟨k, e, _, rfl, he, rfl, rfl⟩

/-- An entry is a child of the node that it was put below. -/
theorem child_treeOf {k : Nat} {e : Entry} (he : trail[k]? = some e) :
    ∃ more, (k + 1, withChildren more e.node) ∈ (treeOf p trail).children e.parent := by
  refine ⟨_, (mem_children_planted (early_leaves h) rfl (bare_leaves h)).2 ⟨k, e.node, rfl, ?_, rfl⟩⟩
  rw [List.getElem?_map, he]
  rfl

/-- The children of the root are the declared dependencies. -/
theorem root_child_treeOf {c : Nat} {n : Node} (hc : (c, n) ∈ (treeOf p trail).children 0) :
    ∃ k d graph?, c = k + 1 ∧ trail[k]? = some (declaredEntry p k d graph?) ∧ Given answers d.artifact graph? ∧
      n.artifact = d.artifact ∧ n.dependency = some d := by
  rcases mem_children_treeOf h hc with ⟨k, e, more, rfl, he, hparent, rfl⟩
  cases h k e he with
  | declared d graph? given => exact ⟨k, d, graph?, rfl, he, given, rfl, rfl⟩
  | taken derives before stands pending first package spared =>
    -- what was taken hangs below an entry
    have hplace := (h _ _ stands).place pending
    rw [show Pending.node _ = 0 from hparent] at hplace
    omega

/-- The places of the tree stand where the entries say. -/
theorem stands_iff {c d x : Nat} : (treeOf p trail).Stands c d x ↔
    ∃ k e, x = k + 1 ∧ trail[k]? = some e ∧ e.branch = c ∧ e.depth = d := by
  constructor
  -- down the tree: a child of the root was declared, and a deeper one was taken from something pending
  · intro hstands
    induction hstands with
    | child hc =>
      rcases root_child_treeOf h hc with ⟨k, d, graph?, rfl, he, -⟩
      exact ⟨k, _, rfl, he, rfl, rfl⟩
    | deeper _ hy ih =>
      rcases ih with ⟨k', e', rfl, he', rfl, rfl⟩
      rcases mem_children_treeOf h hy with ⟨k, e, more, rfl, he, hparent, -⟩
      refine ⟨k, e, rfl, he, ?_⟩
      cases h k e he with
      | declared d graph? given => cases hparent
      | taken derives before stands pending first package spared =>
        have hplace := (h _ _ stands).place pending
        obtain rfl : _ = k' := Nat.succ.inj (hplace.symm.trans hparent)
        obtain rfl := Option.some.inj (stands.symm.trans he')
        exact ⟨rfl, rfl⟩
  · -- by the position of the entry, as the node it was put below stands earlier
    rintro ⟨k, e, rfl, he, rfl, rfl⟩
    induction k using Nat.strongRecOn generalizing e with
    | ind k ih =>
      rcases child_treeOf h he with ⟨more, hchild⟩
      cases h k e he with
      | declared d graph? given => exact .child hchild
      | taken derives before stands pending first package spared =>
        have hplace := (h _ _ stands).place pending
        have habove := ih _ before _ stands
        rw [← hplace] at habove
        exact .deeper habove hchild

/-- What hangs below a declared dependency has its graph and its exclusions. -/
theorem branch_of_stands {c d x : Nat} {n : Node} (hc : (c, n) ∈ (treeOf p trail).children 0)
    (hx : (treeOf p trail).Stands c d x) :
    ∃ k e dep graph?, x = k + 1 ∧ trail[k]? = some e ∧ e.depth = d ∧ n.dependency = some dep ∧
      Given answers n.artifact graph? ∧ (e.depth = 1 → e.pending = startAt p x dep graph?) ∧
      ∀ r, e.pending = some r → graph? = some r.graph ∧ r.graph.self.isSome ∧ r.exclusions = dep.exclusions := by
  rcases root_child_treeOf h hc with ⟨i, dep, graph?, rfl, hi, hgiven, hartifact, hdep⟩
  rcases (stands_iff h).1 hx with ⟨k, e, rfl, he, hbranch, rfl⟩
  rcases h.exists_branch he with ⟨i', dep', graph?', hi', hgiven', hbranch', hpending⟩
  -- the dependency of the branch is the one at its place
  obtain rfl : i' = i := Nat.succ.inj (hbranch'.symm.trans hbranch)
  have hentry : declaredEntry p i' dep' graph?' = declaredEntry p i' dep graph? :=
    Option.some.inj (hi'.symm.trans hi)
  obtain rfl : dep' = dep := Option.some.inj (congrArg (fun e => e.node.dependency) hentry)
  obtain rfl := hgiven'.unique hgiven
  refine ⟨k, e, dep', graph?', rfl, he, rfl, hdep, ?_, ?_, hpending⟩
  · rw [hartifact]
    exact hgiven
  · -- at depth 1 the entry is the one of the branch itself
    intro hone
    cases h k e he with
    | declared d g? given =>
      obtain rfl : k = i' := Nat.succ.inj hbranch
      have hsame : declaredEntry p k d g? = declaredEntry p k dep' graph?' := Option.some.inj (he.symm.trans hi)
      exact congrArg Entry.pending hsame
    | taken derives before stands pending first package spared =>
      have habove := (h _ _ stands).one_le_depth
      have hdepth : Entry.depth _ + 1 = 1 := hone
      omega

/-- Below a declared dependency whose graph says where it stands, everything was pending. -/
theorem pending_of_stands {c d x : Nat} {n : Node} {g : PackageGraph} (hc : (c, n) ∈ (treeOf p trail).children 0)
    (hg : Given answers n.artifact (some g)) (hself : g.self.isSome) (hx : (treeOf p trail).Stands c d x) :
    ∃ k e r dep, x = k + 1 ∧ trail[k]? = some e ∧ e.depth = d ∧ e.pending = some r ∧ r.graph = g ∧
      n.dependency = some dep ∧ r.exclusions = dep.exclusions := by
  rcases branch_of_stands h hc hx with ⟨k, e, dep, graph?, rfl, he, rfl, hdep, hgiven, hone, hpending⟩
  obtain rfl := hgiven.unique hg
  obtain ⟨r, hr⟩ : ∃ r, e.pending = some r := by
    -- the declared dependency itself has its start pending, and a deeper node the place it was found at
    have hpos := (h k e he).one_le_depth
    rcases Nat.eq_or_lt_of_le hpos with hdepth | hdeep
    · obtain ⟨s, hs⟩ := Option.isSome_iff_exists.1 hself
      rw [hone hdepth.symm]
      unfold startAt
      rw [Option.bind_some, hs]
      exact ⟨_, rfl⟩
    · rcases (h k e he).key_mem hdeep with ⟨r, hr, -⟩
      exact ⟨r, hr⟩
  rcases hpending r hr with ⟨hgraph, -, hexclusions⟩
  exact ⟨k, e, r, dep, rfl, he, rfl, hr, (Option.some.inj hgraph).symm, hdep, hexclusions⟩

end Grounded

/-- The entry of a node that was not declared. -/
theorem entry_of_transitive (h : AllGrounded p answers trail) {c d x : Nat} {m : Node}
    (hm : (treeOf p trail).Transitive c d x m) :
    ∃ k e more, x = k + 1 ∧ trail[k]? = some e ∧ e.depth = d ∧ 2 ≤ e.depth ∧ m = withChildren more e.node := by
  rcases hm with ⟨hx, hdeep, hnode⟩
  rcases (stands_iff h).1 hx with ⟨k, e, rfl, he, -, rfl⟩
  rcases node_treeOf h he with ⟨more, hmore⟩
  exact ⟨k, e, more, rfl, he, rfl, hdeep, Option.some.inj (hnode.symm.trans hmore)⟩

/-- Of two entries for the same package both were declared. -/
theorem Tracked.position_eq {waiting : List Entry} {m : Merge} (h : Tracked p answers trail waiting m) {i k : Nat}
    {e f : Entry} (he : trail[i]? = some e) (hf : trail[k]? = some f) (hdeep : 2 ≤ e.depth)
    (hkey : e.node.key = f.node.key) : i = k := by
  obtain ⟨hi, rfl⟩ := List.getElem?_eq_some_iff.1 he
  obtain ⟨hk, rfl⟩ := List.getElem?_eq_some_iff.1 hf
  have hdiffer := List.pairwise_iff_getElem.1 h.once
  rcases Nat.lt_trichotomy i k with hlt | heq | hlt
  · exact absurd hkey (hdiffer i k hi hk hlt (.inl hdeep))
  · exact heq
  · exact absurd hkey.symm (hdiffer k i hk hi hlt (.inr hdeep))

/-! ## Places in the graphs -/

section Places

variable (h : AllGrounded p answers trail)

include h

/-- A node stands in one branch at one depth, those of its entry. -/
theorem unique_treeOf {c c' d d' x : Nat} (hx : (treeOf p trail).Stands c d x) (hx' : (treeOf p trail).Stands c' d' x) :
    c = c' ∧ d = d' := by
  rcases (stands_iff h).1 hx with ⟨k, e, rfl, he, rfl, rfl⟩
  rcases (stands_iff h).1 hx' with ⟨k', e', hk, he', rfl, rfl⟩
  obtain rfl : k = k' := Nat.succ.inj hk
  obtain rfl := Option.some.inj (he.symm.trans he')
  exact ⟨rfl, rfl⟩

/-- A declared dependency stands where its graph says it does. -/
theorem self_treeOf {c s : Nat} {n : Node} {g : PackageGraph} (hc : (c, n) ∈ (treeOf p trail).children 0)
    (hg : Given answers n.artifact (some g)) (hs : g.self = some s) : indexOf trail c = s := by
  have hstands : (treeOf p trail).Stands c 1 c := .child hc
  rcases branch_of_stands h hc hstands with ⟨k, e, dep, graph?, rfl, he, hone, -, hgiven, hpending, -⟩
  obtain rfl := hgiven.unique hg
  have hstart := hpending hone
  unfold startAt at hstart
  rw [Option.bind_some, hs, Option.map_some] at hstart
  exact indexOf_eq he hstart

/-- Nothing hangs below a declared dependency of which no graph is known. -/
theorem known_treeOf {c d x : Nat} {n m : Node} (hc : (c, n) ∈ (treeOf p trail).children 0)
    (hm : (treeOf p trail).Transitive c d x m) : ∃ g, Given answers n.artifact (some g) ∧ g.self.isSome := by
  rcases branch_of_stands h hc hm.1 with ⟨k, e, dep, graph?, rfl, he, rfl, -, hgiven, -, hpending⟩
  rcases (h k e he).key_mem hm.2.1 with ⟨r, hr, -⟩
  rcases hpending r hr with ⟨rfl, hself, -⟩
  exact ⟨r.graph, hgiven, hself⟩

/-- A node stands at the first place of its package that an edge from its parent leads to. -/
theorem first_treeOf {c d x y : Nat} {n m : Node} {g : PackageGraph} (hc : (c, n) ∈ (treeOf p trail).children 0)
    (hg : Given answers n.artifact (some g)) (hx : (treeOf p trail).Stands c d x)
    (hy : (y, m) ∈ (treeOf p trail).children x) : g.firstTarget (indexOf trail x) m.key = some (indexOf trail y) := by
  rcases branch_of_stands h hc hx with ⟨k, e, dep, graph?, rfl, he, rfl, -, hgiven, -, hpending⟩
  rcases mem_children_treeOf h hy with ⟨k', e', more, rfl, he', hparent, rfl⟩
  cases h k' e' he' with
  | declared d' graph?' given' => cases hparent
  | taken derives before stands pending first package spared =>
    have hplace := (h _ _ stands).place pending
    obtain rfl : _ = k := Nat.succ.inj (hplace.symm.trans hparent)
    obtain rfl := Option.some.inj (stands.symm.trans he)
    rcases hpending _ pending with ⟨rfl, -, -⟩
    obtain rfl := Option.some.inj (hgiven.unique hg)
    rw [indexOf_eq he pending, indexOf_eq he' rfl]
    exact first

/-- No node below a declared dependency is excluded there. -/
theorem spared_treeOf {c d x : Nat} {n m : Node} {dep : Dependency} (hc : (c, n) ∈ (treeOf p trail).children 0)
    (hdep : n.dependency = some dep) (hm : (treeOf p trail).Transitive c d x m) :
    isExcluded m.artifact dep.exclusions = false := by
  rcases branch_of_stands h hc hm.1 with ⟨k, e, dep', graph?, rfl, he, rfl, hdep', -, -, hpending⟩
  obtain rfl := Option.some.inj (hdep.symm.trans hdep')
  rcases node_treeOf h he with ⟨more, hmore⟩
  obtain rfl := Option.some.inj (hm.2.2.symm.trans hmore)
  cases h k e he with
  | declared d' graph?' given' =>
    have hdeep : 2 ≤ 1 := hm.2.1
    omega
  | taken derives before stands pending first package spared =>
    rcases hpending _ rfl with ⟨-, -, hexclusions⟩
    rw [← hexclusions, ← spared]
    -- management may have changed the version of the package, but not its name
    exact isExcluded_congr rfl rfl _

/-- Every entry is the node of a declared dependency, or of a package that was taken at its depth. -/
theorem exists_node_of_mem {f : Entry} (hf : f ∈ trail) :
    (∃ c n, (c, n) ∈ (treeOf p trail).children 0 ∧ n.key = f.node.key) ∨
      ∃ c x m, (treeOf p trail).Transitive c f.depth x m ∧ m.key = f.node.key := by
  obtain ⟨k, hk⟩ := List.mem_iff_getElem?.1 hf
  cases h k f hk with
  | declared d graph? given =>
    rcases child_treeOf h hk with ⟨more, hchild⟩
    exact .inl ⟨_, _, hchild, rfl⟩
  | taken derives before stands pending first package spared =>
    have habove := (h _ _ stands).one_le_depth
    rcases node_treeOf h hk with ⟨more, hnode⟩
    have hstands := (stands_iff h).2 ⟨k, _, rfl, hk, rfl, rfl⟩
    exact .inr ⟨_, k + 1, _, ⟨hstands, Nat.succ_le_succ habove, hnode⟩, rfl⟩

end Places

/-! ## The nearest package -/

section Tracked

variable {m : Merge} (h : Tracked p answers trail [] m)

include h

/-- No node below a declared dependency has the key of the project or of a declared dependency. -/
theorem apart_treeOf {c d x : Nat} {n : Node} (hn : (treeOf p trail).Transitive c d x n) :
    n.key ≠ (p.group, p.name) ∧ ∀ {c' n'}, (c', n') ∈ (treeOf p trail).children 0 → n.key ≠ n'.key := by
  rcases entry_of_transitive h.grounded hn with ⟨k, e, more, rfl, he, rfl, hdeep, rfl⟩
  refine ⟨h.apart e (List.mem_of_getElem? he) hdeep, ?_⟩
  intro c' n' hc' hkey
  rcases root_child_treeOf h.grounded hc' with ⟨k', d', graph?, rfl, he', -, hartifact, -⟩
  have hkey' : e.node.key = (declaredEntry p k' d' graph?).node.key := by
    unfold Node.key at hkey ⊢
    rw [hartifact] at hkey
    exact hkey
  -- the entry would be declared itself
  obtain rfl := h.position_eq he he' hdeep hkey'
  obtain rfl := Option.some.inj (he.symm.trans he')
  have hone : (declaredEntry p k d' graph?).depth = 1 := rfl
  omega

/-- A key occurs once below the declared dependencies. -/
theorem once_treeOf {c c' d d' x x' : Nat} {n n' : Node} (hn : (treeOf p trail).Transitive c d x n)
    (hn' : (treeOf p trail).Transitive c' d' x' n') (hkey : n.key = n'.key) : x = x' := by
  rcases entry_of_transitive h.grounded hn with ⟨k, e, more, rfl, he, rfl, hdeep, rfl⟩
  rcases entry_of_transitive h.grounded hn' with ⟨k', e', more', rfl, he', rfl, -, rfl⟩
  rw [h.position_eq he he' hdeep hkey]

/-- What is pending in one of the four scopes passes its dependencies on, so its edges are covered. -/
theorem nearest_treeOf (hsettled : Settling p trail []) {c d x : Nat} {n m' : Node} {dep : Dependency}
    {g : PackageGraph} {scope : String} {j : Int} {q : Package} (hc : (c, n) ∈ (treeOf p trail).children 0)
    (hdep : n.dependency = some dep) (hg : Given answers n.artifact (some g)) (hself : g.self.isSome)
    (hx : (treeOf p trail).Stands c d x) (hm : (treeOf p trail).nodes[x]? = some m') (hscope : m'.scope? = some scope)
    (hpassed : scope ∈ ["compile", "runtime", "test", "provided"]) (hj : j ∈ g.targets (indexOf trail x))
    (hq : g.package? j = some q) (hspared : isExcluded q.artifact dep.exclusions = false) :
    q.key = (p.group, p.name) ∨ (∃ c' n', (c', n') ∈ (treeOf p trail).children 0 ∧ n'.key = q.key) ∨
      ∃ c' d' x' m', (treeOf p trail).Transitive c' d' x' m' ∧ m'.key = q.key ∧ d' ≤ d + 1 := by
  rcases pending_of_stands h.grounded hc hg hself hx with ⟨k, e, r, dep', rfl, he, rfl, hr, rfl, hdep', hexclusions⟩
  obtain rfl := Option.some.inj (hdep.symm.trans hdep')
  rcases node_treeOf h.grounded he with ⟨more, hmore⟩
  obtain rfl := Option.some.inj (hm.symm.trans hmore)
  have hown : e.node.scope? = some r.scope := (h.grounded k e he).scope hr
  obtain rfl : r.scope = scope := Option.some.inj (hown.symm.trans hscope)
  have hderived : (Scope.derive r.scope "compile").isSome := by
    simp only [List.mem_cons, List.not_mem_nil, or_false] at hpassed
    rcases hpassed with hs | hs | hs | hs
    all_goals
      rw [hs]
      rfl
  -- nothing waits any more, so that every edge is covered
  have hcovered : Covered p trail e r := (hsettled e (List.mem_of_getElem? he) r hr).resolve_left List.not_mem_nil
  rw [indexOf_eq he hr] at hj
  rw [← hexclusions] at hspared
  rcases hcovered hderived j hj q hq hspared with hproject | ⟨f, hf, hkey, hdepth⟩
  · exact .inl hproject
  · rcases exists_node_of_mem h.grounded hf with ⟨c', n', hc', hsame⟩ | ⟨c', x', m', hm', hsame⟩
    · exact .inr (.inl ⟨c', n', hc', hsame.trans hkey⟩)
    · exact .inr (.inr ⟨c', f.depth, x', m', hm', hsame.trans hkey, hdepth⟩)

/-- At the end of a merge the nearest package has won. -/
theorem nearestWins_of_tracked (hsettled : Settling p trail []) :
    NearestWins p answers ⟨m.nodes, 0⟩ (indexOf trail) := by
  have htree : (⟨m.nodes, 0⟩ : Graph) = treeOf p trail := by
    rw [h.nodes]
    rfl
  have hgrounded := h.grounded
  rw [htree]
  have hdeclared : ∀ {c n}, (c, n) ∈ (treeOf p trail).children 0 →
      ∃ d, n.dependency = some d ∧ n.artifact = d.artifact := by
    intro c n hc
    rcases root_child_treeOf hgrounded hc with ⟨k, d, graph?, -, -, -, hartifact, hdep⟩
    exact ⟨d, hdep, hartifact⟩
  -- one lemma for each condition, most of them from the trail being grounded
  exact {
    declared := hdeclared
    unique := unique_treeOf hgrounded
    self := self_treeOf hgrounded
    known := known_treeOf hgrounded
    first := first_treeOf hgrounded
    apart := apart_treeOf h
    once := once_treeOf h
    nearest := nearest_treeOf h hsettled
    spared := spared_treeOf hgrounded }

end Tracked

end Tree

end DepsDev

end VersionAudit
