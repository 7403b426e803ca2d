import Mathlib.Data.List.Nodup
import Mathlib.Data.List.Perm.Subperm
import VersionAudit.Proofs.DepsDev.Planting
import VersionAudit.Proofs.DepsDev.Resolutions

/-!
# The merge of many graphs

The merge of a project looks at the graphs of all its declared dependencies at once. Its nodes are told by a trail:
one entry for each node below the root, in the order in which they were taken, with its depth and what was pending for
it. The nodes that are still to be looked at wait in the order of their depths, and no entry is deeper than one below
the first of them.

1. `Grounded`: why an entry stands in the trail. `exists_branch`: each one belongs to a declared dependency.
2. `Tracked`: a merge is what a trail says. `tracked_take` and `tracked_expand` show what one edge and one node add.
3. `Covered`: the edges of an entry lead to what was taken nearby.
4. `exists_finish`: the merge comes to an end, with every entry covered.
-/

namespace VersionAudit

/-- What tells the nodes of a project graph apart. -/
def Node.key (n : Node) : String × String :=
  (n.artifact.group, n.artifact.name)

namespace DepsDev

open Merge

/-! ## Graphs -/

namespace PackageGraph

/-- Edges lead to packages of the graph. -/
def Closed (g : PackageGraph) : Prop :=
  ∀ e ∈ g.edges, 0 ≤ e.2 ∧ e.2 < g.packages.size

instance (g : PackageGraph) : Decidable g.Closed :=
  inferInstanceAs (Decidable (∀ e ∈ g.edges, 0 ≤ e.2 ∧ e.2 < g.packages.size))

/-- Group and name of the package at a place. -/
def keyAt (g : PackageGraph) (j : Int) : Option (String × String) :=
  (g.package? j).map Package.key

/-- Of the places that edges lead to from a place, the first one whose package has the given group and name. -/
def firstTarget (g : PackageGraph) (i : Int) (key : String × String) : Option Int :=
  (g.targets i).find? fun j => g.keyAt j == some key

/-- Group and name of each package. -/
def keys (g : PackageGraph) : List (String × String) :=
  g.packages.toList.map Package.key

/-- Edges of a closed graph lead to packages. -/
theorem Closed.exists_package {g : PackageGraph} (hg : g.Closed) {i j : Int} (h : j ∈ g.targets i) :
    ∃ q, g.package? j = some q := by
  rcases List.mem_map.1 h with ⟨e, he, rfl⟩
  rcases hg e (List.mem_filter.1 he).1 with ⟨hle, hlt⟩
  rw [package?_of_nonneg hle]
  exact ⟨_, Array.getElem?_eq_getElem (by omega)⟩

/-- The key of a package is one of the graph's keys. -/
theorem key_mem_keys {g : PackageGraph} {j : Int} {q : Package} (h : g.package? j = some q) : q.key ∈ g.keys := by
  have hq : q ∈ g.packages := by
    unfold package? at h
    split at h
    · exact Array.mem_of_getElem? h
    · split at h
      · exact Array.mem_of_getElem? h
      · cases h
  exact List.mem_map_of_mem hq.val

end PackageGraph

/-- Exclusions look at group and name only. -/
theorem isExcluded_congr {a b : Artifact} (hgroup : a.group = b.group) (hname : a.name = b.name)
    (exclusions : List Exclusion) : isExcluded a exclusions = isExcluded b exclusions := by
  unfold isExcluded Exclusion.excludes
  rw [hgroup, hname]

/-! ## Entries -/

/-- A node of a merge, with what is known of its way there. -/
structure Entry where
  /-- The place of the node that it was put below. -/
  parent : Nat
  node : Node
  /-- The place of the declared dependency that it belongs to. -/
  branch : Nat
  depth : Nat
  /-- What is pending for it, or was before. Nothing ever is for a declared dependency without a graph. -/
  pending : Option Pending

namespace Entry

/-- The node of an entry and the place that it is put below. -/
def leaf (e : Entry) : Nat × Node :=
  (e.parent, e.node)

end Entry

/-- The graph that is kept for an artifact, or that it is unknown. -/
def Given (answers : Answers (String × String × String) PackageGraph) (a : Artifact) (graph? : Option PackageGraph) :
    Prop :=
  answers.kept? (a.group, a.name, a.version) = some graph?

/-- What is pending for a declared dependency, if its graph says where the dependency itself stands. -/
def startAt (p : Project) (place : Nat) (d : Dependency) (graph? : Option PackageGraph) : Option Pending :=
  graph?.bind fun graph => graph.self.map fun (s : Nat) =>
    { graph, place := s, node := place, scope := d.scope, exclusions := d.exclusions, management := p.management }

/-- The entry of a declared dependency at some position of a trail. -/
def declaredEntry (p : Project) (k : Nat) (d : Dependency) (graph? : Option PackageGraph) : Entry where
  parent := 0
  node := declaredNode d
  branch := k + 1
  depth := 1
  pending := startAt p (k + 1) d graph?

/-- The entry of a package that was taken below another entry. -/
def takenEntry (above : Entry) (r : Pending) (k : Nat) (j : Int) (q : Package) (derived : String) : Entry where
  parent := r.node
  node := r.nodeOf q derived
  branch := above.branch
  depth := above.depth + 1
  pending := some { r with place := j, node := k + 1, scope := (r.dependencyOf q derived).scope }

section Trail

variable (p : Project) (answers : Answers (String × String × String) PackageGraph)

/-- Why an entry stands at some position of a trail: it was declared, or an edge led to it from an entry before. -/
inductive Grounded (trail : List Entry) (k : Nat) : Entry → Prop
  | declared (d : Dependency) (graph? : Option PackageGraph) (given : Given answers d.artifact graph?) :
    Grounded trail k (declaredEntry p k d graph?)
  | taken {above : Entry} {k' : Nat} {r : Pending} {j : Int} {q : Package} {derived : String}
    (derives : Scope.derive r.scope "compile" = some derived) (before : k' < k) (stands : trail[k']? = some above)
    (pending : above.pending = some r)
    (first : r.graph.firstTarget r.place q.key = some j) (package : r.graph.package? j = some q)
    (spared : isExcluded q.artifact r.exclusions = false) : Grounded trail k (takenEntry above r k j q derived)

/-- Every entry of a trail is grounded in the trail. -/
def AllGrounded (trail : List Entry) : Prop :=
  ∀ k e, trail[k]? = some e → Grounded p answers trail k e

variable {p answers} {trail : List Entry} {k : Nat} {e : Entry}

namespace Grounded

/-- An entry stays grounded when the trail goes on and more answers are known. -/
theorem mono {answers' : Answers (String × String × String) PackageGraph} {trail' : List Entry}
    (h : Grounded p answers trail k e) (hlonger : trail <+: trail')
    (hanswers : ∀ a graph?, Given answers a graph? → Given answers' a graph?) : Grounded p answers' trail' k e := by
  cases h with
  | declared d graph? given => exact .declared d graph? (hanswers _ _ given)
  | taken derives before stands pending first package spared =>
    rcases hlonger with ⟨more, rfl⟩
    refine .taken derives before ?_ pending first package spared
    rw [List.getElem?_append_left (List.getElem?_eq_some_iff.1 stands).1]
    exact stands

/-- What is pending for an entry is pending for its node. -/
theorem place (h : Grounded p answers trail k e) {r : Pending} (hr : e.pending = some r) : r.node = k + 1 := by
  cases h with
  | declared d graph? given =>
    obtain ⟨graph, -, hself⟩ := Option.bind_eq_some_iff.1 hr
    obtain ⟨s, -, rfl⟩ := Option.map_eq_some_iff.1 hself
    rfl
  | taken derives before stands pending first package spared =>
    obtain rfl := Option.some.inj hr
    rfl

/-- What is pending for an entry has the scope of its node. -/
theorem scope (h : Grounded p answers trail k e) {r : Pending} (hr : e.pending = some r) :
    e.node.scope? = some r.scope := by
  cases h with
  | declared d graph? given =>
    obtain ⟨graph, -, hself⟩ := Option.bind_eq_some_iff.1 hr
    obtain ⟨s, -, rfl⟩ := Option.map_eq_some_iff.1 hself
    rfl
  | taken derives before stands pending first package spared =>
    obtain rfl := Option.some.inj hr
    rfl

theorem bare (h : Grounded p answers trail k e) : e.node.children = [] := by
  cases h with
  | declared d graph? given => rfl
  | taken derives before stands pending first package spared => rfl

theorem one_le_depth (h : Grounded p answers trail k e) : 1 ≤ e.depth := by
  cases h with
  | declared d graph? given => exact Nat.le_refl 1
  | taken derives before stands pending first package spared => exact Nat.succ_pos _

/-- An entry that was not declared comes from a package of its graph. -/
theorem key_mem (h : Grounded p answers trail k e) (hdeep : 2 ≤ e.depth) :
    ∃ r, e.pending = some r ∧ e.node.key ∈ r.graph.keys := by
  cases h with
  | declared d graph? given =>
    have hone : (declaredEntry p k d graph?).depth = 1 := rfl
    omega
  | taken derives before stands pending first package spared =>
    exact ⟨_, rfl, PackageGraph.key_mem_keys package⟩

end Grounded

/-- Entries are put below the root or below earlier entries. -/
theorem AllGrounded.parent_le (h : AllGrounded p answers trail) (he : trail[k]? = some e) : e.parent ≤ k := by
  cases h k e he with
  | declared d graph? given => exact Nat.zero_le k
  | taken derives before stands pending first package spared =>
    have hplace := (h _ _ stands).place pending
    show Pending.node _ ≤ k
    omega

/-- Every entry belongs to a declared dependency. What is pending for it concerns the graph of that dependency and has
its exclusions. -/
theorem AllGrounded.exists_branch (h : AllGrounded p answers trail) (he : trail[k]? = some e) :
    ∃ c d graph?, trail[c]? = some (declaredEntry p c d graph?) ∧ Given answers d.artifact graph? ∧ e.branch = c + 1 ∧
      ∀ r, e.pending = some r → graph? = some r.graph ∧ r.graph.self.isSome ∧ r.exclusions = d.exclusions := by
  -- by the position of the entry, as an entry that was taken is pending with what the entry above it has
  induction k using Nat.strongRecOn generalizing e with
  | ind k ih =>
    cases h k e he with
    | declared d graph? given =>
      refine ⟨k, d, graph?, he, given, rfl, ?_⟩
      intro r hr
      obtain ⟨graph, rfl, hself⟩ := Option.bind_eq_some_iff.1 hr
      obtain ⟨s, hs, rfl⟩ := Option.map_eq_some_iff.1 hself
      exact ⟨rfl, Option.isSome_iff_exists.2 ⟨s, hs⟩, rfl⟩
    | taken derives before stands pending first package spared =>
      obtain ⟨c, d, graph?, hc, hgiven, hbranch, hpending⟩ := ih _ before stands
      refine ⟨c, d, graph?, hc, hgiven, hbranch, ?_⟩
      intro r hr
      obtain rfl := Option.some.inj hr
      have habove := hpending _ pending
      exact habove

/-- One entry more is grounded in the entries before it. -/
theorem AllGrounded.concat (h : AllGrounded p answers trail)
    (he : Grounded p answers (trail ++ [e]) trail.length e) : AllGrounded p answers (trail ++ [e]) := by
  intro k f hf
  by_cases hk : k < trail.length
  · rw [List.getElem?_append_left hk] at hf
    exact (h k f hf).mono (List.prefix_append ..) fun _ _ => id
  · have hlast : k = trail.length := by
      have hlt := (List.getElem?_eq_some_iff.1 hf).1
      rw [List.length_append, List.length_singleton] at hlt
      omega
    rw [hlast, List.getElem?_concat_length] at hf
    obtain rfl := Option.some.inj hf
    rw [hlast]
    exact he

/-! ## Tracked merges -/

variable (p answers)

/-- A merge is what a trail says, and the nodes to be looked at are those of the entries that wait. -/
structure Tracked (trail waiting : List Entry) (m : Merge) : Prop where
  grounded : AllGrounded p answers trail
  nodes : m.nodes = plant #[{ artifact := p.artifact }] (trail.map Entry.leaf)
  seen : ∀ key, key ∈ m.seen ↔ key = (p.group, p.name) ∨ ∃ e ∈ trail, e.node.key = key
  once : trail.Pairwise fun e f => 2 ≤ e.depth ∨ 2 ≤ f.depth → e.node.key ≠ f.node.key
  apart : ∀ e ∈ trail, 2 ≤ e.depth → e.node.key ≠ (p.group, p.name)
  queue : m.queue.map some = waiting.map Entry.pending
  subset : ∀ w ∈ waiting, w ∈ trail
  sorted : waiting.Pairwise fun v w => v.depth ≤ w.depth
  near : ∀ w ∈ waiting, ∀ e ∈ trail, e.depth ≤ w.depth + 1

/-- An edge to a place adds nothing more: its package is known, excluded or not passed on. -/
def Looked (r : Pending) (m : Merge) (j : Int) : Prop :=
  ∀ q, r.graph.package? j = some q →
    q.key ∈ m.seen ∨ isExcluded q.artifact r.exclusions = true ∨ Scope.derive r.scope "compile" = none

/-- The entries that were taken from the edges of an entry. -/
def Gained (w : Entry) (r : Pending) (new : List Entry) : Prop :=
  ∀ e ∈ new, e.depth = w.depth + 1 ∧ ∃ s, e.pending = some s ∧ s.graph = r.graph

variable {p answers} {waiting : List Entry} {m : Merge}

/-- The edge at which a package is taken is the first one that leads to a package of this group and name. -/
theorem firstTarget_of_looked {r : Pending} {before after : List Int} {j : Int} {q : Package}
    (htargets : r.graph.targets r.place = before ++ j :: after) (hlooked : ∀ i ∈ before, Looked r m i)
    (hpackage : r.graph.package? j = some q) (hnew : q.key ∉ m.seen)
    (hspared : isExcluded q.artifact r.exclusions = false) (hpassed : (Scope.derive r.scope "compile").isSome) :
    r.graph.firstTarget r.place q.key = some j := by
  unfold PackageGraph.firstTarget
  rw [List.find?_eq_some_iff_append]
  refine ⟨?_, before, after, htargets, ?_⟩
  · unfold PackageGraph.keyAt
    rw [hpackage]
    exact beq_self_eq_true _
  · -- a package with this key at an earlier edge would have been taken there
    intro i hi
    rw [Bool.not_eq_true', beq_eq_false_iff_ne]
    intro hkey
    obtain ⟨q', hq', hsame⟩ := Option.map_eq_some_iff.1 hkey
    rcases hlooked i hi q' hq' with hseen | hexcluded | hwithheld
    · rw [hsame] at hseen
      exact hnew hseen
    · have hcongr : isExcluded q'.artifact r.exclusions = isExcluded q.artifact r.exclusions :=
        isExcluded_congr (congrArg Prod.fst hsame) (congrArg Prod.snd hsame) r.exclusions
      rw [hcongr, hspared] at hexcluded
      cases hexcluded
    · rw [hwithheld] at hpassed
      cases hpassed

theorem Tracked.size (h : Tracked p answers trail waiting m) : m.nodes.size = trail.length + 1 := by
  rw [h.nodes, size_plant, List.length_map, Nat.add_comm]
  rfl

/-- What is known with one entry more. -/
theorem mem_seen_concat {seen : List (String × String)}
    (h : ∀ key, key ∈ seen ↔ key = (p.group, p.name) ∨ ∃ e ∈ trail, e.node.key = key) (e : Entry)
    (key : String × String) :
    key ∈ e.node.key :: seen ↔ key = (p.group, p.name) ∨ ∃ f ∈ trail ++ [e], f.node.key = key := by
  rw [List.mem_cons, h]
  constructor
  · rintro (rfl | hproject | ⟨f, hf, hkey⟩)
    · exact .inr ⟨e, List.mem_concat_self, rfl⟩
    · exact .inl hproject
    · exact .inr ⟨f, List.mem_append_left _ hf, hkey⟩
  · rintro (hproject | ⟨f, hf, rfl⟩)
    · exact .inr (.inl hproject)
    · rcases List.mem_append.1 hf with hf | hf
      · exact .inr (.inr ⟨f, hf, rfl⟩)
      · obtain rfl := List.mem_singleton.1 hf
        exact .inl rfl

/-- What was seen stays seen when the trail goes on. -/
theorem Tracked.seen_mono {new waiting' : List Entry} {m' : Merge} (h : Tracked p answers trail waiting m)
    (h' : Tracked p answers (trail ++ new) waiting' m') {key : String × String} (hkey : key ∈ m.seen) :
    key ∈ m'.seen := by
  rw [h.seen] at hkey
  rw [h'.seen]
  rcases hkey with hproject | ⟨e, he, hkey⟩
  · exact .inl hproject
  · exact .inr ⟨e, List.mem_append_left _ he, hkey⟩

/-- The first entry that waits is looked at next. It is among the least deep ones that wait, and without it the trail
says the same. -/
theorem Tracked.pop {w : Entry} (h : Tracked p answers trail (w :: waiting) m) :
    ∃ (r : Pending) (rest : List Pending) (k : Nat), m.queue = r :: rest ∧ w.pending = some r ∧ trail[k]? = some w ∧
      Tracked p answers trail waiting { m with queue := rest } ∧ (∀ e ∈ trail, e.depth ≤ w.depth + 1) ∧
      ∀ u ∈ waiting, w.depth ≤ u.depth := by
  -- the queue is not empty, since an entry waits
  obtain ⟨r, rest, hqueue⟩ : ∃ r rest, m.queue = r :: rest := by
    apply List.exists_cons_of_ne_nil
    intro hnil
    have hlength := congrArg List.length h.queue
    rw [hnil] at hlength
    simp at hlength
  have hboth := h.queue
  rw [hqueue, List.map_cons, List.map_cons, List.cons.injEq] at hboth
  rcases hboth with ⟨hpending, hrest⟩
  obtain ⟨k, hk⟩ := List.mem_iff_getElem?.1 (h.subset w (List.mem_cons_self ..))
  have hsorted := List.pairwise_cons.1 h.sorted
  refine ⟨r, rest, k, hqueue, hpending.symm, hk, ?_, h.near w (List.mem_cons_self ..), hsorted.1⟩
  exact { h with
    queue := hrest
    subset := fun u hu => h.subset u (List.mem_cons_of_mem _ hu)
    sorted := hsorted.2
    near := fun u hu => h.near u (List.mem_cons_of_mem _ hu) }

section Taking

variable {w : Entry} {r : Pending} (h : Tracked p answers trail waiting m) (hw : trail[k]? = some w)
  (hpending : w.pending = some r) (hnear : ∀ e ∈ trail, e.depth ≤ w.depth + 1)
  (hfar : ∀ u ∈ waiting, w.depth ≤ u.depth)

include h hw hpending hnear hfar

/-- A new package is the last entry of the trail, and the last one to wait. -/
theorem Tracked.adopt {j : Int} {q : Package} {derived : String}
    (hderives : Scope.derive r.scope "compile" = some derived) (hnew : q.key ∉ m.seen)
    (hfirst : r.graph.firstTarget r.place q.key = some j) (hpackage : r.graph.package? j = some q)
    (hspared : isExcluded q.artifact r.exclusions = false) :
    Tracked p answers (trail ++ [takenEntry w r trail.length j q derived])
      (waiting ++ [takenEntry w r trail.length j q derived]) (m.adopt r j q derived) := by
  have hdepth : (takenEntry w r trail.length j q derived).depth = w.depth + 1 := rfl
  have hunknown : ∀ e ∈ trail, e.node.key ≠ q.key := fun e he heq => hnew ((h.seen _).2 (.inr ⟨e, he, heq⟩))
  have hbefore : k < trail.length := (List.getElem?_eq_some_iff.1 hw).1
  constructor
  case grounded =>
    refine h.grounded.concat (.taken hderives hbefore ?_ hpending hfirst hpackage hspared)
    rw [List.getElem?_append_left hbefore]
    exact hw
  case nodes =>
    show grow m.nodes r.node (r.nodeOf q derived) = _
    rw [h.nodes, List.map_append, List.map_singleton, plant_concat]
    rfl
  case seen =>
    exact mem_seen_concat h.seen (takenEntry w r trail.length j q derived)
  case once =>
    rw [List.pairwise_append]
    refine ⟨h.once, List.pairwise_singleton .., ?_⟩
    intro e he f hf _
    obtain rfl := List.mem_singleton.1 hf
    exact hunknown e he
  case apart =>
    intro e he hdeep
    rcases List.mem_append.1 he with he | he
    · exact h.apart e he hdeep
    · obtain rfl := List.mem_singleton.1 he
      exact fun heq => hnew ((h.seen _).2 (.inl heq))
  case queue =>
    -- the place of the new node is the number of nodes so far
    show (m.queue ++ [_]).map some = _
    rw [List.map_append, List.map_append, h.queue, h.size]
    rfl
  case subset =>
    intro u hu
    rcases List.mem_append.1 hu with hu | hu
    · exact List.mem_append_left _ (h.subset u hu)
    · exact List.mem_append_right _ hu
  case sorted =>
    rw [List.pairwise_append]
    refine ⟨h.sorted, List.pairwise_singleton .., ?_⟩
    intro u hu f hf
    obtain rfl := List.mem_singleton.1 hf
    exact hnear u (h.subset u hu)
  case near =>
    -- what waits is at least as deep as the entry that is looked at
    intro u hu e he
    have hbound : w.depth ≤ u.depth := by
      rcases List.mem_append.1 hu with hu | hu
      · exact hfar u hu
      · obtain rfl := List.mem_singleton.1 hu
        omega
    rcases List.mem_append.1 he with he | he
    · have hle := hnear e he
      omega
    · obtain rfl := List.mem_singleton.1 he
      omega

/-- Looking at one edge more. -/
theorem tracked_take {before after : List Int} {j : Int} (hpackage : ∃ q, r.graph.package? j = some q)
    (htargets : r.graph.targets r.place = before ++ j :: after) (hlooked : ∀ i ∈ before, Looked r m i) :
    ∃ new m', take r m j = .ok m' ∧ Tracked p answers (trail ++ new) (waiting ++ new) m' ∧ Gained w r new ∧
      Looked r m' j := by
  obtain ⟨q, hq⟩ := hpackage
  have htake := take_eq (m := m) hq
  -- an edge to a known, excluded or withheld package leaves the merge as it is
  have hidle : Looked r m j → take r m j = .ok m → ∃ new m', take r m j = .ok m' ∧
      Tracked p answers (trail ++ new) (waiting ++ new) m' ∧ Gained w r new ∧ Looked r m' j := by
    intro hdone hsame
    refine ⟨[], m, hsame, ?_, ?_, hdone⟩
    · rw [List.append_nil, List.append_nil]
      exact h
    · intro e he
      cases he
  by_cases hseen : q.key ∈ m.seen
  · apply hidle
    · intro q' hq'
      obtain rfl := Option.some.inj (hq.symm.trans hq')
      exact .inl hseen
    · rw [htake, if_pos (by simpa using hseen)]
  rw [if_neg (by simpa using hseen)] at htake
  cases hderive : Scope.derive r.scope "compile" with
  | none =>
    rw [hderive] at htake
    apply hidle
    · intro q' _
      exact .inr (.inr hderive)
    · exact htake
  | some derived =>
    rw [hderive] at htake
    by_cases hexcluded : isExcluded q.artifact r.exclusions = true
    · apply hidle
      · intro q' hq'
        obtain rfl := Option.some.inj (hq.symm.trans hq')
        exact .inr (.inl hexcluded)
      · rw [htake]
        exact if_pos hexcluded
    have hspared : isExcluded q.artifact r.exclusions = false := by simpa using hexcluded
    have hpassed : (Scope.derive r.scope "compile").isSome := by
      rw [hderive]
      rfl
    have hfirst := firstTarget_of_looked htargets hlooked hq hseen hspared hpassed
    refine ⟨[takenEntry w r trail.length j q derived], m.adopt r j q derived, ?_, ?_, ?_, ?_⟩
    · rw [htake]
      exact if_neg hexcluded
    · exact h.adopt hw hpending hnear hfar hderive hseen hfirst hq hspared
    · intro e he
      obtain rfl := List.mem_singleton.1 he
      exact ⟨rfl, _, rfl, rfl⟩
    · intro q' hq'
      obtain rfl := Option.some.inj (hq.symm.trans hq')
      exact .inl (List.mem_cons_self ..)

/-- Looking at the rest of the edges of an entry. -/
theorem tracked_expand (hpackages : ∀ j ∈ r.graph.targets r.place, ∃ q, r.graph.package? j = some q)
    {before after : List Int} (htargets : r.graph.targets r.place = before ++ after)
    (hlooked : ∀ i ∈ before, Looked r m i) :
    ∃ new m', after.foldlM (take r) m = .ok m' ∧ Tracked p answers (trail ++ new) (waiting ++ new) m' ∧
      Gained w r new ∧ ∀ j ∈ r.graph.targets r.place, Looked r m' j := by
  -- edge by edge: what is before the place was looked at, and what it gained waits behind
  induction after generalizing before trail waiting m with
  | nil =>
    refine ⟨[], m, rfl, ?_, ?_, ?_⟩
    · rw [List.append_nil, List.append_nil]
      exact h
    · intro e he
      cases he
    · rw [htargets, List.append_nil]
      exact hlooked
  | cons j after ih =>
    have hpackage := hpackages j (by simp [htargets])
    rcases tracked_take h hw hpending hnear hfar hpackage htargets hlooked with ⟨new, m₁, htake, h₁, hgained, hj⟩
    have hw₁ : (trail ++ new)[k]? = some w := by
      rw [List.getElem?_append_left (List.getElem?_eq_some_iff.1 hw).1]
      exact hw
    have hnear₁ : ∀ e ∈ trail ++ new, e.depth ≤ w.depth + 1 := by
      intro e he
      rcases List.mem_append.1 he with he | he
      · exact hnear e he
      · exact (hgained e he).1.le
    have hfar₁ : ∀ u ∈ waiting ++ new, w.depth ≤ u.depth := by
      intro u hu
      rcases List.mem_append.1 hu with hu | hu
      · exact hfar u hu
      · have hdepth := (hgained u hu).1
        omega
    have htargets₁ : r.graph.targets r.place = (before ++ [j]) ++ after := by
      rw [htargets, List.append_assoc]
      rfl
    have hlooked₁ : ∀ i ∈ before ++ [j], Looked r m₁ i := by
      intro i hi
      rcases List.mem_append.1 hi with hi | hi
      · intro q hq
        exact (hlooked i hi q hq).imp_left (h.seen_mono h₁)
      · obtain rfl := List.mem_singleton.1 hi
        exact hj
    rcases ih h₁ hw₁ hnear₁ hfar₁ htargets₁ hlooked₁ with ⟨new', m₂, hrest, h₂, hgained', hall⟩
    refine ⟨new ++ new', m₂, ?_, ?_, ?_, hall⟩
    · rw [List.foldlM_cons, htake]
      exact hrest
    · rw [← List.append_assoc, ← List.append_assoc]
      exact h₂
    · intro e he
      rcases List.mem_append.1 he with he | he
      · exact hgained e he
      · exact hgained' e he

end Taking

end Trail

end DepsDev

end VersionAudit
