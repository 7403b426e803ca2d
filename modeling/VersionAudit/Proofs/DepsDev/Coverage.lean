import VersionAudit.Proofs.DepsDev.Trail

/-!
# The end of a merge

Every node is looked at once. The nodes that were not declared come from different packages of the graphs of the
declared ones, so there is an end to them, and the bound of the loop lies behind it.

1. `Merge.Exhausts`: the loop as it is without a bound.
2. `Covered`: what the edges of an entry lead to, once they have been looked at.
3. `length_deep_le`: how many entries a trail can have.
4. `exists_run`, `exists_finish`: the loop ends with every entry covered.
-/

namespace VersionAudit.DepsDev

open Merge

/-- The first node of the queue is taken off and looked at, again and again until the queue is empty. -/
inductive Merge.Exhausts : Merge → Merge → Prop
  | done {m : Merge} (empty : m.queue = []) : Exhausts m m
  | next {m m' m'' : Merge} {r : Pending} {rest : List Pending} (first : m.queue = r :: rest)
    (expand : { m with queue := rest }.expand r = .ok m') (tail : Exhausts m' m'') : Exhausts m m''

section Coverage

variable {p : Project} {answers : Answers (String × String × String) PackageGraph} {trail waiting : List Entry}
  {m : Merge}

/-! ## Covered entries -/

/-- If dependencies are passed on, every edge to a package that is not excluded leads to the project or to an entry
that is at most one deeper. -/
def Covered (p : Project) (trail : List Entry) (e : Entry) (r : Pending) : Prop :=
  (Scope.derive r.scope "compile").isSome → ∀ j ∈ r.graph.targets r.place, ∀ q, r.graph.package? j = some q →
    isExcluded q.artifact r.exclusions = false →
    q.key = (p.group, p.name) ∨ ∃ f ∈ trail, f.node.key = q.key ∧ f.depth ≤ e.depth + 1

/-- A covered entry stays covered when the trail goes on. -/
theorem Covered.append {e : Entry} {r : Pending} (h : Covered p trail e r) (more : List Entry) :
    Covered p (trail ++ more) e r := by
  intro hpassed j hj q hq hspared
  rcases h hpassed j hj q hq hspared with hproject | ⟨f, hf, hkey, hdepth⟩
  · exact .inl hproject
  · exact .inr ⟨f, List.mem_append_left _ hf, hkey, hdepth⟩

/-- Where all edges have been looked at and no entry is deeper, an entry is covered. -/
theorem covered_of_looked {w : Entry} {r : Pending} (h : Tracked p answers trail waiting m)
    (hnear : ∀ e ∈ trail, e.depth ≤ w.depth + 1) (hlooked : ∀ j ∈ r.graph.targets r.place, Looked r m j) :
    Covered p trail w r := by
  intro hpassed j hj q hq hspared
  rcases hlooked j hj q hq with hseen | hexcluded | hwithheld
  · rw [h.seen] at hseen
    rcases hseen with hproject | ⟨f, hf, hkey⟩
    · exact .inl hproject
    · exact .inr ⟨f, hf, hkey, hnear f hf⟩
  · rw [hspared] at hexcluded
    cases hexcluded
  · rw [hwithheld] at hpassed
    cases hpassed

/-- Every entry waits or is covered. -/
def Settling (p : Project) (trail waiting : List Entry) : Prop :=
  ∀ e ∈ trail, ∀ r, e.pending = some r → e ∈ waiting ∨ Covered p trail e r

/-! ## How many entries there are -/

/-- The entries that were not declared. -/
def deep (trail : List Entry) : List Entry :=
  trail.filter fun e => 2 ≤ e.depth

/-- What is pending, or was, concerns one of the given graphs. -/
def Within (graphs : List PackageGraph) (trail : List Entry) : Prop :=
  ∀ e ∈ trail, ∀ r, e.pending = some r → r.graph ∈ graphs

/-- The number of packages of some graphs. -/
def capacity (graphs : List PackageGraph) : Nat :=
  (graphs.flatMap PackageGraph.keys).length

/-- All that an entry gains is deep. -/
theorem length_deep_append {w : Entry} {r : Pending} {new : List Entry} (hgained : Gained w r new)
    (hw : 1 ≤ w.depth) : (deep (trail ++ new)).length = (deep trail).length + new.length := by
  have hall : deep new = new := by
    unfold deep
    rw [List.filter_eq_self]
    intro e he
    have hdepth := (hgained e he).1
    rw [decide_eq_true_eq]
    omega
  unfold deep at hall ⊢
  rw [List.filter_append, List.length_append, hall]

/-- The entries that were not declared come from different packages. -/
theorem length_deep_le {graphs : List PackageGraph} (h : Tracked p answers trail waiting m)
    (hwithin : Within graphs trail) : (deep trail).length ≤ capacity graphs := by
  have hnodup : ((deep trail).map fun e => e.node.key).Nodup := by
    rw [List.Nodup, List.pairwise_map]
    refine (h.once.filter _).imp_of_mem ?_
    intro e f he _ hdiffer
    have hdeep : 2 ≤ e.depth := by simpa using (List.mem_filter.1 he).2
    exact hdiffer (.inl hdeep)
  have hsubset : (deep trail).map (fun e => e.node.key) ⊆ graphs.flatMap PackageGraph.keys := by
    intro key hkey
    rcases List.mem_map.1 hkey with ⟨e, he, rfl⟩
    rcases List.mem_filter.1 he with ⟨hmem, hdeep⟩
    obtain ⟨k, hk⟩ := List.mem_iff_getElem?.1 hmem
    rcases (h.grounded k e hk).key_mem (by simpa using hdeep) with ⟨r, hr, hkey⟩
    exact List.mem_flatMap.2 ⟨r.graph, hwithin e hmem r hr, hkey⟩
  have hlength := (List.subperm_of_subset hnodup hsubset).length_le
  rwa [List.length_map] at hlength

/-! ## The loop -/

/-- One round: the first entry that waits is covered then, and what it gains waits behind the others. -/
theorem exists_round {w : Entry} {graphs : List PackageGraph} (hclosed : ∀ g ∈ graphs, g.Closed)
    (h : Tracked p answers trail (w :: waiting) m) (hsettling : Settling p trail (w :: waiting))
    (hwithin : Within graphs trail) :
    ∃ r rest new m', m.queue = r :: rest ∧ { m with queue := rest }.expand r = .ok m' ∧
      Tracked p answers (trail ++ new) (waiting ++ new) m' ∧ Settling p (trail ++ new) (waiting ++ new) ∧
      Within graphs (trail ++ new) ∧ (deep (trail ++ new)).length = (deep trail).length + new.length := by
  obtain ⟨r, rest, k, hqueue, hpending, hk, hpopped, hnear, hfar⟩ := h.pop
  have hmem : w ∈ trail := List.mem_of_getElem? hk
  have hgraph : r.graph.Closed := hclosed _ (hwithin w hmem r hpending)
  have hpackages : ∀ j ∈ r.graph.targets r.place, ∃ q, r.graph.package? j = some q := fun j => hgraph.exists_package
  rcases tracked_expand hpopped hk hpending hnear hfar hpackages (List.nil_append _).symm (by simp) with
    ⟨new, m', hexpand, h', hgained, hlooked⟩
  have hnear' : ∀ e ∈ trail ++ new, e.depth ≤ w.depth + 1 := by
    intro e he
    rcases List.mem_append.1 he with he | he
    · exact hnear e he
    · exact (hgained e he).1.le
  -- what waited before waits on, but for the entry that is covered now
  refine ⟨r, rest, new, m', hqueue, hexpand, h', ?_, ?_, ?_⟩
  · intro e he s hs
    rcases List.mem_append.1 he with he | he
    · rcases hsettling e he s hs with hwaits | hcovered
      · rcases List.mem_cons.1 hwaits with rfl | hwaits
        · -- this is the entry whose edges have been looked at
          obtain rfl := Option.some.inj (hpending.symm.trans hs)
          exact .inr (covered_of_looked h' hnear' hlooked)
        · exact .inl (List.mem_append_left _ hwaits)
      · exact .inr (hcovered.append new)
    · exact .inl (List.mem_append_right _ he)
  · intro e he s hs
    rcases List.mem_append.1 he with he | he
    · exact hwithin e he s hs
    · rcases (hgained e he).2 with ⟨s', hs', hsame⟩
      obtain rfl := Option.some.inj (hs.symm.trans hs')
      rw [hsame]
      exact hwithin w hmem r hpending
  · exact length_deep_append hgained (h.grounded k w hk).one_le_depth

/-- With enough rounds the loop comes to its end. -/
theorem exists_run {graphs : List PackageGraph} (hclosed : ∀ g ∈ graphs, g.Closed) {fuel : Nat}
    (h : Tracked p answers trail waiting m) (hsettling : Settling p trail waiting) (hwithin : Within graphs trail)
    (hfuel : waiting.length + capacity graphs < fuel + (deep trail).length) :
    ∃ trail' m', run fuel m = .ok m' ∧ m.Exhausts m' ∧ Tracked p answers trail' [] m' ∧ Settling p trail' [] := by
  induction fuel generalizing trail waiting m with
  | zero =>
    -- every round takes an entry off, and there are no more entries than packages
    have hle := length_deep_le h hwithin
    omega
  | succ fuel ih =>
    cases waiting with
    | nil =>
      have hqueue : m.queue = [] := by simpa using h.queue
      refine ⟨trail, m, ?_, .done hqueue, h, hsettling⟩
      unfold run
      rw [hqueue]
    | cons w waiting =>
      rcases exists_round hclosed h hsettling hwithin with
        ⟨r, rest, new, m₁, hqueue, hexpand, h₁, hsettling₁, hwithin₁, hdeep⟩
      have hfuel₁ : (waiting ++ new).length + capacity graphs < fuel + (deep (trail ++ new)).length := by
        rw [List.length_cons] at hfuel
        rw [List.length_append, hdeep]
        omega
      rcases ih h₁ hsettling₁ hwithin₁ hfuel₁ with ⟨trail', m', hrun, hexhausts, h', hsettling'⟩
      refine ⟨trail', m', ?_, .next hqueue hexpand hexhausts, h', hsettling'⟩
      unfold run
      rw [hqueue]
      show ({ m with queue := rest }.expand r >>= run fuel) = _
      rw [hexpand]
      exact hrun

/-- The bound of a merge exceeds the number of nodes to be looked at. -/
theorem lt_bound (queue : List Pending) (start : Nat) :
    queue.foldl (fun n r => n + r.graph.packages.size + 1) start =
      start + queue.length + capacity (queue.map Pending.graph) := by
  induction queue generalizing start with
  | nil => rfl
  | cons r queue ih =>
    have hkeys : r.graph.keys.length = r.graph.packages.size := by simp [PackageGraph.keys]
    rw [List.foldl_cons, ih]
    unfold capacity
    rw [List.map_cons, List.flatMap_cons, List.length_append, List.length_cons, hkeys]
    omega

/-- A merge in which every entry with something pending waits comes to its end, and every entry is covered then. -/
theorem exists_finish (h : Tracked p answers trail waiting m) (hstart : ∀ e ∈ trail, e.pending.isSome → e ∈ waiting)
    (hclosed : ∀ r ∈ m.queue, r.graph.Closed) :
    ∃ trail' m', m.finish = .ok m' ∧ m.Exhausts m' ∧ Tracked p answers trail' [] m' ∧ Settling p trail' [] := by
  have hlength : m.queue.length = waiting.length := by
    have hmap := congrArg List.length h.queue
    rwa [List.length_map, List.length_map] at hmap
  have hsettling : Settling p trail waiting := by
    intro e he r hr
    exact .inl (hstart e he (Option.isSome_iff_exists.2 ⟨r, hr⟩))
  have hwithin : Within (m.queue.map Pending.graph) trail := by
    intro e he r hr
    have hwaits : e ∈ waiting := hstart e he (Option.isSome_iff_exists.2 ⟨r, hr⟩)
    have hqueue : some r ∈ m.queue.map some := by
      rw [h.queue, ← hr]
      exact List.mem_map_of_mem hwaits
    exact List.mem_map_of_mem ((List.mem_map_of_injective (Option.some_injective _)).1 hqueue)
  have hgraphs : ∀ g ∈ m.queue.map Pending.graph, g.Closed := by
    intro g hg
    rcases List.mem_map.1 hg with ⟨r, hr, rfl⟩
    exact hclosed r hr
  -- the bound counts the edges of all graphs, which is more than can be gained
  have hfuel : waiting.length + capacity (m.queue.map Pending.graph) < m.bound + (deep trail).length := by
    have hbound : m.bound = _ := lt_bound m.queue 1
    omega
  exact exists_run hgraphs h hsettling hwithin hfuel

end Coverage

end VersionAudit.DepsDev
