import Mathlib.Data.List.Nodup
import Mathlib.Data.List.Perm.Subperm
import VersionAudit.Proofs.DepsDev.Arrivals
import VersionAudit.Proofs.DepsDev.Merge

/-!
# The walk through one graph

A merge that begins with a single node of a single graph, without management, looks at the edges of that graph
in the order of `edgesFrom`.

1. `Alone`: how such a merge begins.
2. `Walked`: what the merge is like after it has looked at a list of edges. `walked_take` and `walked_expand`
   show what one edge and one node add.
3. `finish_alone`: the merge comes to an end, and has looked at a settled list then.
-/

namespace VersionAudit.DepsDev

open PackageGraph Merge

/-- Edges lead to packages of the graph, and packages differ in group or name. -/
structure PackageGraph.WellFormed (g : PackageGraph) : Prop where
  edges : ∀ i, ∀ j ∈ g.targets i, 0 ≤ j ∧ j < g.packages.size
  distinct : ∀ (i j : Nat) (q r : Package), g.packages[i]? = some q → g.packages[j]? = some r → q.key = r.key → i = j

namespace PackageGraph

variable {g : PackageGraph}

theorem package?_of_nonneg {j : Int} (h : 0 ≤ j) : g.package? j = g.packages[j.toNat]? := by
  unfold package?
  rw [if_pos h]

theorem WellFormed.exists_package (hg : g.WellFormed) {i j : Int} (h : j ∈ g.targets i) :
    ∃ q, g.package? j = some q := by
  rcases hg.edges i j h with ⟨hle, hlt⟩
  rw [package?_of_nonneg hle]
  exact ⟨_, Array.getElem?_eq_getElem (by omega)⟩

/-- Edges are looked at one by one, and so are the keys of packages. -/
theorem wellFormed_iff : g.WellFormed ↔
    (∀ e ∈ g.edges, 0 ≤ e.2 ∧ e.2 < g.packages.size) ∧ (g.packages.toList.map Package.key).Nodup := by
  constructor
  · rintro ⟨hedges, hdistinct⟩
    refine ⟨?_, ?_⟩
    · intro e he
      refine hedges e.1 e.2 (List.mem_map.2 ⟨e, List.mem_filter.2 ⟨he, ?_⟩, rfl⟩)
      exact beq_self_eq_true e.1
    -- two packages with one key would stand at one place
    · rw [List.nodup_iff_getElem?_ne_getElem?]
      intro i j hij hj heq
      rw [List.length_map, Array.length_toList] at hj
      simp only [List.getElem?_map, Array.getElem?_toList] at heq
      obtain ⟨q, hq⟩ : ∃ q, g.packages[i]? = some q := ⟨_, Array.getElem?_eq_getElem (by omega)⟩
      obtain ⟨r, hr⟩ : ∃ r, g.packages[j]? = some r := ⟨_, Array.getElem?_eq_getElem hj⟩
      rw [hq, hr] at heq
      have hplace := hdistinct i j q r hq hr (Option.some.inj heq)
      omega
  · rintro ⟨hedges, hkeys⟩
    refine ⟨?_, ?_⟩
    · intro i j hj
      rcases List.mem_map.1 hj with ⟨e, he, rfl⟩
      exact hedges e (List.mem_filter.1 he).1
    · intro i j q r hq hr hkey
      have hi : (g.packages.toList.map Package.key)[i]? = some q.key := by
        rw [List.getElem?_map, Array.getElem?_toList, hq]
        rfl
      have hj : (g.packages.toList.map Package.key)[j]? = some q.key := by
        rw [List.getElem?_map, Array.getElem?_toList, hr, hkey]
        rfl
      exact (List.getElem?_inj (List.getElem?_eq_some_iff.1 hi).1 hkeys).1 (hi.trans hj.symm)

instance : Decidable g.WellFormed :=
  decidable_of_iff _ wellFormed_iff.symm

/-- Places that edges lead to are told apart by the keys of their packages. -/
theorem WellFormed.eq_of_key (hg : g.WellFormed) {i i' j j' : Int} (h : j ∈ g.targets i) (h' : j' ∈ g.targets i')
    {q q' : Package} (hq : g.package? j = some q) (hq' : g.package? j' = some q') (hkey : q.key = q'.key) :
    j = j' := by
  rcases hg.edges i j h with ⟨hle, -⟩
  rcases hg.edges i' j' h' with ⟨hle', -⟩
  rw [package?_of_nonneg hle] at hq
  rw [package?_of_nonneg hle'] at hq'
  have heq := hg.distinct _ _ q q' hq hq' hkey
  omega

end PackageGraph

/-- A merge that is to look at one node only, which is the last of its table and has no children yet. -/
structure Alone (p : Pending) (m : Merge) : Prop where
  graph : p.graph.WellFormed
  scope : p.scope = "compile"
  management : p.management = ∅
  queue : m.queue = [p]
  size : m.nodes.size = p.node + 1
  start : ∃ n, m.nodes[p.node]? = some n ∧ n.children = []

section Walk

variable (p : Pending) (m₀ : Merge)

/-- Whether the package at a place is neither known at the start nor excluded. -/
def isOpen (j : Int) : Bool :=
  match p.graph.package? j with
  | some q => !m₀.seen.contains q.key && !isExcluded q.artifact p.exclusions
  | none => false

/-- What is pending for the place at some position of the places taken. -/
def pendingAt (e : Int × Nat) : Pending :=
  { p with place := e.1, node := p.node + e.2 }

/-- The node for the package at a place. -/
def leafAt (j : Int) : Node :=
  ((p.graph.package? j).getD default).leaf

/-- The table with a node for each of the hits. -/
def sprout (hits : List (Nat × Int)) : Array Node :=
  hits.foldl (fun nodes e => grow nodes (p.node + e.1) (leafAt p e.2)) m₀.nodes

/-- The merge after it has looked at a list of edges, the nodes of the first `done` places taken no longer
being pending. -/
structure Walked (edges : List (Nat × Int)) (done : Nat) (m : Merge) : Prop where
  nodes : m.nodes = sprout p m₀ (hits (isOpen p m₀) edges)
  seen : ∀ key, key ∈ m.seen ↔ key ∈ m₀.seen ∨
    ∃ k j q, (k, j) ∈ hits (isOpen p m₀) edges ∧ p.graph.package? j = some q ∧ q.key = key
  queue : m.queue = ((taken (isOpen p m₀) p.place edges).zipIdx.drop done).map (pendingAt p)

variable {p m₀}

/-- Each hit adds a node. -/
theorem size_sprout (hits : List (Nat × Int)) : (sprout p m₀ hits).size = m₀.nodes.size + hits.length := by
  unfold sprout
  induction hits using List.reverseRecOn with
  | nil => rfl
  | append_singleton hits e ih =>
    rw [List.foldl_append, List.length_append, List.foldl_cons, List.foldl_nil, size_grow, ih]
    rfl

/-- A place is open if its package has not been seen and is not excluded. -/
theorem isOpen_eq_true {j : Int} {q : Package} (hq : p.graph.package? j = some q) :
    isOpen p m₀ j = true ↔ q.key ∉ m₀.seen ∧ isExcluded q.artifact p.exclusions = false := by
  unfold isOpen
  rw [hq]
  simp

/-- An edge that is no hit leaves the merge as it is. -/
theorem Walked.skip {edges : List (Nat × Int)} {done : Nat} {m : Merge} (h : Walked p m₀ edges done m) {k : Nat}
    {j : Int} (hold : isOpen p m₀ j = false ∨ ∃ k', (k', j) ∈ hits (isOpen p m₀) edges) :
    Walked p m₀ (edges ++ [(k, j)]) done m := by
  have hhits := hits_concat_of_old (k := k) hold
  refine ⟨?_, ?_, ?_⟩
  · rw [hhits]
    exact h.nodes
  · rw [hhits]
    exact h.seen
  · unfold taken
    rw [hhits]
    exact h.queue

/-- A hit adds its package. -/
theorem Walked.adopt (hp : Alone p m₀) {edges : List (Nat × Int)} {done : Nat} {m : Merge}
    (h : Walked p m₀ edges done m) (hdone : done ≤ (taken (isOpen p m₀) p.place edges).length) {i j : Int} {k : Nat}
    {q : Package} (hq : p.graph.package? j = some q)
    (hhits : hits (isOpen p m₀) (edges ++ [(k, j)]) = hits (isOpen p m₀) edges ++ [(k, j)]) :
    Walked p m₀ (edges ++ [(k, j)]) done (m.adopt (pendingAt p (i, k)) j q "compile") := by
  -- nothing manages the packages of a single node's graph
  have hunmanaged : (pendingAt p (i, k)).management = ∅ := hp.management
  refine ⟨?_, ?_, ?_⟩
  · show grow m.nodes (p.node + k) ((pendingAt p (i, k)).nodeOf q "compile") = _
    rw [hhits, h.nodes, Pending.nodeOf_of_unmanaged hunmanaged]
    unfold sprout leafAt
    rw [List.foldl_append, List.foldl_cons, List.foldl_nil, hq]
    rfl
  · intro key
    show key ∈ q.key :: m.seen ↔ _
    rw [List.mem_cons, h.seen key, hhits]
    constructor
    · rintro (rfl | hstart | ⟨k', j', q', hhit, hq', hkey⟩)
      · exact .inr ⟨k, j, q, by simp, hq, rfl⟩
      · exact .inl hstart
      · exact .inr ⟨k', j', q', List.mem_append_left _ hhit, hq', hkey⟩
    · rintro (hstart | ⟨k', j', q', hhit, hq', hkey⟩)
      · exact .inr (.inl hstart)
      · rcases List.mem_append.1 hhit with hhit | hhit
        · exact .inr (.inr ⟨k', j', q', hhit, hq', hkey⟩)
        · cases List.mem_singleton.1 hhit
          rw [hq, Option.some.injEq] at hq'
          exact .inl (hq' ▸ hkey.symm)
  · -- the new node stands last in the table, and is the last one pending
    have hsize : m.nodes.size = p.node + (taken (isOpen p m₀) p.place edges).length := by
      rw [h.nodes, size_sprout, hp.size]
      unfold taken
      rw [List.length_cons, List.length_map]
      omega
    have htaken : taken (isOpen p m₀) p.place (edges ++ [(k, j)]) = taken (isOpen p m₀) p.place edges ++ [j] := by
      unfold taken
      rw [hhits, List.map_append]
      rfl
    show m.queue ++ [_] = _
    rw [htaken, List.zipIdx_append, List.drop_append_of_le_length (by simpa using hdone), List.map_append,
      ← h.queue, Pending.dependencyOf_of_unmanaged hunmanaged, hsize]
    unfold pendingAt
    simp [hp.scope]

/-- The edges looked at lead from places of the graph. -/
def FromGraph (p : Pending) (edges : List (Nat × Int)) : Prop :=
  ∀ e ∈ edges, ∃ i, e.2 ∈ p.graph.targets i

/-- Looking at one edge more. -/
theorem walked_take (hp : Alone p m₀) {edges : List (Nat × Int)} {done : Nat} {m : Merge}
    (h : Walked p m₀ edges done m) (hdone : done ≤ (taken (isOpen p m₀) p.place edges).length)
    (hedges : FromGraph p edges) {i j : Int} {k : Nat} (hj : j ∈ p.graph.targets i) :
    ∃ m', take (pendingAt p (i, k)) m j = .ok m' ∧ Walked p m₀ (edges ++ [(k, j)]) done m' := by
  rcases hp.graph.exists_package hj with ⟨q, hq⟩
  have htake := take_eq (p := pendingAt p (i, k)) (m := m) hq
  have hscope : (pendingAt p (i, k)).scope = "compile" := hp.scope
  have hexclusions : (pendingAt p (i, k)).exclusions = p.exclusions := rfl
  have hderive : Scope.derive "compile" "compile" = some "compile" := rfl
  rw [hscope, hexclusions, hderive] at htake
  -- the package was seen, is excluded, or is taken now
  by_cases hseen : q.key ∈ m.seen
  · rw [if_pos (by simpa using hseen)] at htake
    refine ⟨m, htake, h.skip ?_⟩
    rcases (h.seen q.key).1 hseen with hstart | ⟨k', j', q', hhit, hq', hkey⟩
    · left
      rw [Bool.eq_false_iff, Ne, isOpen_eq_true hq]
      exact fun hopen => hopen.1 hstart
    · -- the package was taken for an edge to a place with its key, which is the same place
      right
      rcases hedges _ (of_mem_hits hhit).1 with ⟨i', hj'⟩
      obtain rfl := hp.graph.eq_of_key hj' hj hq' hq hkey
      exact ⟨k', hhit⟩
  · rw [if_neg (by simpa using hseen)] at htake
    by_cases hexcluded : isExcluded q.artifact p.exclusions = true
    · refine ⟨m, ?_, h.skip ?_⟩
      · rw [htake]
        exact if_pos hexcluded
      · left
        rw [Bool.eq_false_iff, Ne, isOpen_eq_true hq]
        simp [hexcluded]
    · have hopen : isOpen p m₀ j = true :=
        (isOpen_eq_true hq).2 ⟨fun hstart => hseen ((h.seen q.key).2 (.inl hstart)), by simpa using hexcluded⟩
      have hnew : ∀ k', (k', j) ∉ hits (isOpen p m₀) edges := fun k' hhit =>
        hseen ((h.seen q.key).2 (.inr ⟨k', j, q, hhit, hq, rfl⟩))
      refine ⟨m.adopt (pendingAt p (i, k)) j q "compile", ?_, h.adopt hp hdone hq (hits_concat_of_new hopen hnew)⟩
      rw [htake]
      exact if_neg hexcluded

/-- More edges only add places. -/
theorem prefix_taken (isOpen : Int → Bool) (start : Int) {edges more : List (Nat × Int)} (h : edges <+: more) :
    taken isOpen start edges <+: taken isOpen start more := by
  unfold taken hits
  rcases h with ⟨rest, rfl⟩
  rw [List.filter_append]
  exact (List.prefix_cons_inj start).2 ((prefix_firstsBy _ (List.prefix_append ..)).map _)

/-- Looking at all edges of a node. -/
theorem walked_expand (hp : Alone p m₀) {done : Nat} {i : Int} {k : Nat} {targets : List Int}
    (htargets : ∀ j ∈ targets, j ∈ p.graph.targets i) {edges : List (Nat × Int)} {m : Merge}
    (h : Walked p m₀ edges done m) (hdone : done ≤ (taken (isOpen p m₀) p.place edges).length)
    (hedges : FromGraph p edges) :
    ∃ m', targets.foldlM (take (pendingAt p (i, k))) m = .ok m' ∧
      Walked p m₀ (edges ++ targets.map fun j => (k, j)) done m' := by
  -- edge by edge, each from the same place
  induction targets generalizing edges m with
  | nil =>
    refine ⟨m, rfl, ?_⟩
    simpa using h
  | cons j targets ih =>
    rw [List.forall_mem_cons] at htargets
    rcases walked_take (k := k) hp h hdone hedges htargets.1 with ⟨m₁, htake, h₁⟩
    have hlonger := (prefix_taken (isOpen p m₀) p.place (List.prefix_append edges [(k, j)])).length_le
    have hedges₁ : FromGraph p (edges ++ [(k, j)]) := by
      intro e he
      rcases List.mem_append.1 he with he | he
      · exact hedges e he
      · obtain rfl := List.mem_singleton.1 he
        exact ⟨i, htargets.1⟩
    rcases ih htargets.2 h₁ (by omega) hedges₁ with ⟨m₂, hrest, h₂⟩
    refine ⟨m₂, ?_, ?_⟩
    · rw [List.foldlM_cons, htake]
      exact hrest
    · rw [List.append_assoc] at h₂
      exact h₂

/-! ## The whole walk -/

/-- The merge between two nodes: it has looked at all edges of the first `done` places taken. -/
structure Paused (p : Pending) (m₀ : Merge) (edges : List (Nat × Int)) (done : Nat) (m : Merge) : Prop where
  walked : Walked p m₀ edges done m
  all : edges = p.graph.edgesFrom ((taken (isOpen p m₀) p.place edges).take done)
  le : done ≤ (taken (isOpen p m₀) p.place edges).length
  early : ∀ (i k : Nat) (j : Int), (hits (isOpen p m₀) edges)[i]? = some (k, j) → k ≤ i

/-- Before the first node nothing was looked at. -/
theorem paused_start (hp : Alone p m₀) : Paused p m₀ [] 0 m₀ where
  walked := by
    refine ⟨rfl, ?_, ?_⟩
    · intro key
      simp [hits, firstsBy]
    · rw [hp.queue]
      rfl
  all := rfl
  le := Nat.zero_le _
  early := by simp [hits, firstsBy]

/-- The edges looked at are edges of the graph. -/
theorem Paused.fromGraph {edges : List (Nat × Int)} {done : Nat} {m : Merge} (h : Paused p m₀ edges done m) :
    FromGraph p edges := by
  rintro ⟨k, j⟩ he
  rw [h.all] at he
  rcases mem_edgesFrom.1 he with ⟨i, -, hj⟩
  exact ⟨i, hj⟩

/-- No more places are taken than the graph has packages, the start aside. -/
theorem length_hits_le (hg : p.graph.WellFormed) {edges : List (Nat × Int)} (hedges : FromGraph p edges) :
    (hits (isOpen p m₀) edges).length ≤ p.graph.packages.size := by
  have hsub : (hits (isOpen p m₀) edges).map (·.2) ⊆ (List.range p.graph.packages.size).map Int.ofNat := by
    intro j hj
    rcases List.mem_map.1 hj with ⟨e, he, rfl⟩
    rcases hedges e (of_mem_hits he).1 with ⟨i, hi⟩
    rcases hg.edges i _ hi with ⟨hle, hlt⟩
    refine List.mem_map.2 ⟨e.2.toNat, ?_, ?_⟩
    · rw [List.mem_range]
      omega
    · exact Int.toNat_of_nonneg hle
  have hlength := (List.subperm_of_subset (nodup_hits (isOpen p m₀) edges) hsub).length_le
  simpa using hlength

/-- One round takes the first node that is pending and looks at its edges. -/
theorem paused_round (hp : Alone p m₀) {edges : List (Nat × Int)} {done : Nat} {m : Merge}
    (h : Paused p m₀ edges done m) {next : Pending} {rest : List Pending} (hqueue : m.queue = next :: rest) :
    ∃ edges' m', { m with queue := rest }.expand next = .ok m' ∧ Paused p m₀ edges' (done + 1) m' := by
  have hdrop := h.walked.queue
  rw [hqueue] at hdrop
  have hlt : done < (taken (isOpen p m₀) p.place edges).length := by
    by_contra hge
    rw [List.drop_eq_nil_of_le (by simpa using hge)] at hdrop
    cases hdrop
  obtain ⟨i, hi⟩ : ∃ i, (taken (isOpen p m₀) p.place edges)[done]? = some i := ⟨_, List.getElem?_eq_getElem hlt⟩
  have hget : (taken (isOpen p m₀) p.place edges).zipIdx[done]? = some (i, done) := by
    rw [List.getElem?_zipIdx, hi]
    simp
  rw [List.drop_eq_getElem?_toList_append, hget] at hdrop
  simp only [Option.toList_some, List.singleton_append, List.map_cons, List.cons.injEq] at hdrop
  rcases hdrop with ⟨rfl, hrest⟩
  have hwalked : Walked p m₀ edges (done + 1) { m with queue := rest } := ⟨h.walked.nodes, h.walked.seen, hrest⟩
  rcases walked_expand (k := done) hp (fun _ hj => hj) hwalked hlt h.fromGraph (i := i) with ⟨m', hexpand, hm'⟩
  refine ⟨_, m', hexpand, hm', ?_, ?_, ?_⟩
  · -- the places taken before are taken still, so the edges are those of one place more
    obtain ⟨more, hmore⟩ := prefix_taken (isOpen p m₀) p.place
      (List.prefix_append edges ((p.graph.targets i).map fun j => (done, j)))
    rw [← hmore, List.take_append_of_le_length hlt, List.take_add_one, hi, Option.toList_some, edgesFrom_concat, ← h.all,
      List.length_take, Nat.min_eq_left (Nat.le_of_lt hlt)]
  · exact Nat.le_trans hlt (prefix_taken _ _ (List.prefix_append ..)).length_le
  · intro i' k j hhit
    rcases hits_append (isOpen p m₀) edges ((p.graph.targets i).map fun j => (done, j)) with ⟨new, heq, hnew⟩
    rw [heq] at hhit
    -- new hits come from the node just looked at, whose own hit stands before them
    by_cases hold : i' < (hits (isOpen p m₀) edges).length
    · rw [List.getElem?_append_left hold] at hhit
      exact h.early i' k j hhit
    · rw [List.getElem?_append_right (by omega)] at hhit
      rcases List.mem_map.1 (hnew _ (List.mem_of_getElem? hhit)) with ⟨j', -, hj'⟩
      cases hj'
      unfold taken at hlt
      rw [List.length_cons, List.length_map] at hlt
      omega

/-- With enough rounds the merge comes to its end. -/
theorem run_paused (hp : Alone p m₀) {fuel : Nat} {edges : List (Nat × Int)} {done : Nat} {m : Merge}
    (h : Paused p m₀ edges done m) (hfuel : p.graph.packages.size + 2 ≤ fuel + done) :
    ∃ edges' m', run fuel m = .ok m' ∧ p.graph.Settled (isOpen p m₀) p.place edges' ∧
      Walked p m₀ edges' (taken (isOpen p m₀) p.place edges').length m' := by
  induction fuel generalizing edges done m with
  | zero =>
    -- every round takes a node off the queue, and there are no more nodes than packages
    have hlength : (hits (isOpen p m₀) edges).length ≤ p.graph.packages.size := length_hits_le hp.graph h.fromGraph
    have hle := h.le
    unfold taken at hle
    rw [List.length_cons, List.length_map] at hle
    omega
  | succ fuel ih =>
    cases hqueue : m.queue with
    | nil =>
      have hempty := h.walked.queue
      rw [hqueue, eq_comm, List.map_eq_nil_iff, List.drop_eq_nil_iff, List.length_zipIdx] at hempty
      have hdone : done = (taken (isOpen p m₀) p.place edges).length := Nat.le_antisymm h.le hempty
      refine ⟨edges, m, ?_, ⟨?_, h.early⟩, ?_⟩
      · unfold run
        rw [hqueue]
      · have hall := h.all
        rw [hdone, List.take_length] at hall
        exact hall
      · rw [← hdone]
        exact h.walked
    | cons next rest =>
      rcases paused_round hp h hqueue with ⟨edges₁, m₁, hexpand, h₁⟩
      rcases ih h₁ (by omega) with ⟨edges', m', hrun, hsettled, hwalked⟩
      refine ⟨edges', m', ?_, hsettled, hwalked⟩
      unfold run
      rw [hqueue]
      show ({ m with queue := rest }.expand next >>= run fuel) = _
      rw [hexpand]
      exact hrun

/-- A merge that begins with one node of one graph comes to its end, and has looked at a settled list of edges. -/
theorem finish_alone (hp : Alone p m₀) :
    ∃ edges m, m₀.finish = .ok m ∧ p.graph.Settled (isOpen p m₀) p.place edges ∧
      m.nodes = sprout p m₀ (hits (isOpen p m₀) edges) := by
  have hbound : p.graph.packages.size + 2 ≤ m₀.bound + 0 := by
    unfold bound
    rw [hp.queue]
    simp only [List.foldl_cons, List.foldl_nil]
    omega
  rcases run_paused hp (paused_start hp) hbound with ⟨edges, m, hrun, hsettled, hwalked⟩
  exact ⟨edges, m, hrun, hsettled, hwalked.nodes⟩

end Walk

end VersionAudit.DepsDev
