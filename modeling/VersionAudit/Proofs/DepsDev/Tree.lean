import VersionAudit.Proofs.DepsDev.Planting
import VersionAudit.Proofs.DepsDev.Walk

/-!
# The tree that a walk grows

A walk adds one node for each hit, below the node of the place that the hit comes from.

1. `getElem?_sprout`: the table of nodes after a list of hits.
2. `leads_iff`: the children of the node at a position of the places taken.
3. `reaches_iff`: which packages a path of admitted nodes leads to.
-/

namespace VersionAudit.DepsDev

open PackageGraph Merge

section Tree

variable (p : Pending) (m₀ : Merge)

/-- The node that a table begins with at a place, or that a hit puts there. -/
def origin (hits : List (Nat × Int)) (x : Nat) : Option Node :=
  if x < m₀.nodes.size then m₀.nodes[x]? else (hits[x - m₀.nodes.size]?).map fun e => leafAt p e.2

/-- The places of the nodes that hits put below a place. -/
def below (hits : List (Nat × Int)) (x : Nat) : List Nat :=
  (hits.zipIdx.filter fun e => p.node + e.1.1 == x).map fun e => m₀.nodes.size + e.2

variable {p m₀}

/-- Below a place stand the nodes of the hits from it. -/
theorem mem_below {hits : List (Nat × Int)} {x c : Nat} :
    c ∈ below p m₀ hits x ↔ ∃ i k j, hits[i]? = some (k, j) ∧ p.node + k = x ∧ c = m₀.nodes.size + i := by
  unfold below
  rw [List.mem_map]
  constructor
  · rintro ⟨⟨⟨k, j⟩, i⟩, hmem, rfl⟩
    rcases List.mem_filter.1 hmem with ⟨hmem, hx⟩
    exact ⟨i, k, j, List.mk_mem_zipIdx_iff_getElem?.1 hmem, by simpa using hx, rfl⟩
  · rintro ⟨i, k, j, hhit, hx, rfl⟩
    exact ⟨((k, j), i), List.mem_filter.2 ⟨List.mk_mem_zipIdx_iff_getElem?.2 hhit, by simpa using hx⟩, rfl⟩

/-- The leaf of each hit, with the place that it is put below. -/
def leaves (p : Pending) (hits : List (Nat × Int)) : List (Nat × Node) :=
  hits.map fun e => (p.node + e.1, leafAt p e.2)

theorem offspring_leaves (hits : List (Nat × Int)) (x : Nat) :
    offspring m₀.nodes.size (leaves p hits) x = below p m₀ hits x := by
  unfold offspring leaves below
  rw [List.zipIdx_map, List.filter_map, List.map_map]
  rfl

/-- Every node keeps what it was made of, and has the nodes of the hits below it as children. -/
theorem getElem?_sprout (hp : Alone p m₀) {hits : List (Nat × Int)}
    (hearly : ∀ (i k : Nat) (j : Int), hits[i]? = some (k, j) → k ≤ i) (x : Nat) :
    (sprout p m₀ hits)[x]? = (origin p m₀ hits x).map (withChildren (below p m₀ hits x)) := by
  have hsprout : sprout p m₀ hits = plant m₀.nodes (leaves p hits) := by
    unfold sprout plant leaves
    rw [List.foldl_map]
  have horigin : origin p m₀ hits x = seed m₀.nodes (leaves p hits) x := by
    unfold origin seed leaves
    rw [List.getElem?_map, Option.map_map]
    rfl
  rw [hsprout, horigin, ← offspring_leaves]
  apply getElem?_plant
  intro i y n hleaf
  unfold leaves at hleaf
  rw [List.getElem?_map] at hleaf
  obtain ⟨⟨k, j⟩, hhit, hpair⟩ := Option.map_eq_some_iff.1 hleaf
  obtain rfl : p.node + k = y := congrArg Prod.fst hpair
  have hle := hearly i k j hhit
  have hsize := hp.size
  omega

/-! ## Paths in the tree -/

/-- Filters look at the artifact and the request of a node only. -/
def ReadsRequest (admits : Node → Bool) : Prop :=
  ∀ more n, admits (withChildren more n) = admits n

variable {edges : List (Nat × Int)} {admits : Node → Bool}

/-- The table at the end of a walk. -/
def grown (p : Pending) (m₀ : Merge) (edges : List (Nat × Int)) (root : Nat) : Graph :=
  ⟨sprout p m₀ (hits (isOpen p m₀) edges), root⟩

/-- Every node keeps what it was made of, and has those below it as children. -/
theorem grown_nodes (hp : Alone p m₀) (hsettled : p.graph.Settled (isOpen p m₀) p.place edges) (root x : Nat) :
    (grown p m₀ edges root).nodes[x]? =
      (origin p m₀ (hits (isOpen p m₀) edges) x).map (withChildren (below p m₀ (hits (isOpen p m₀) edges) x)) :=
  getElem?_sprout hp hsettled.early x

/-- The node that a hit has put into the table. -/
theorem origin_of_hit {hits : List (Nat × Int)} {i k : Nat} {j : Int} (hhit : hits[i]? = some (k, j)) :
    origin p m₀ hits (m₀.nodes.size + i) = some (leafAt p j) := by
  unfold origin
  rw [if_neg (by omega), Nat.add_sub_cancel_left, hhit]
  rfl

/-- The start and the leaves have no children but those of the hits. -/
theorem children_origin (hp : Alone p m₀) {hits : List (Nat × Int)} {x : Nat} (hx : p.node ≤ x) {n : Node}
    (hn : origin p m₀ hits x = some n) : n.children = [] := by
  unfold origin at hn
  split at hn
  · have hsize := hp.size
    rcases hp.start with ⟨n₀, hstart, hleaf⟩
    obtain rfl : x = p.node := by omega
    rw [hstart, Option.some.injEq] at hn
    rw [← hn]
    exact hleaf
  · rcases Option.map_eq_some_iff.1 hn with ⟨e, -, rfl⟩
    rfl

/-- A place is found from another one, and its node is admitted. -/
def FoundAdmitted (p : Pending) (m₀ : Merge) (admits : Node → Bool) (i j : Int) : Prop :=
  p.graph.Found (isOpen p m₀) p.place i j ∧ admits (leafAt p j) = true

section Settled

variable (hp : Alone p m₀) (hsettled : p.graph.Settled (isOpen p m₀) p.place edges) (hreads : ReadsRequest admits)
  (root : Nat)

include hp hsettled

theorem node_of_hit {i k : Nat} {j : Int} (hhit : (hits (isOpen p m₀) edges)[i]? = some (k, j)) :
    (grown p m₀ edges root).nodes[p.node + (i + 1)]? =
      some (withChildren (below p m₀ (hits (isOpen p m₀) edges) (p.node + (i + 1))) (leafAt p j)) := by
  have hplace : p.node + (i + 1) = m₀.nodes.size + i := by
    have hsize := hp.size
    omega
  rw [grown_nodes hp hsettled, hplace, origin_of_hit hhit, Option.map_some]

/-- The children of the node at a position of the places taken are the nodes of the hits from there. -/
theorem exists_node {k : Nat} (hk : k ≤ (hits (isOpen p m₀) edges).length) :
    ∃ n, (grown p m₀ edges root).nodes[p.node + k]? = some n ∧
      n.children = below p m₀ (hits (isOpen p m₀) edges) (p.node + k) := by
  obtain ⟨n, hn⟩ : ∃ n, origin p m₀ (hits (isOpen p m₀) edges) (p.node + k) = some n := by
    have hsize := hp.size
    -- the first place taken is that of the node itself, and each further one is that of a hit
    cases k with
    | zero =>
      rcases hp.start with ⟨n₀, hstart, -⟩
      unfold origin
      rw [if_pos (by omega)]
      exact ⟨n₀, hstart⟩
    | succ k =>
      have hplace : p.node + (k + 1) = m₀.nodes.size + k := by omega
      rw [hplace]
      exact ⟨_, origin_of_hit (List.getElem?_eq_getElem hk)⟩
  refine ⟨withChildren (below p m₀ (hits (isOpen p m₀) edges) (p.node + k)) n, ?_, ?_⟩
  · rw [grown_nodes hp hsettled, hn, Option.map_some]
  · unfold withChildren
    rw [children_origin hp (Nat.le_add_right ..) hn, List.nil_append]

include hreads

/-- From the node at a position of the places taken the admitted hits from there lead on. -/
theorem leads_iff {k x : Nat} (hk : k ≤ (hits (isOpen p m₀) edges).length) :
    (grown p m₀ edges root).Leads admits (p.node + k) x ↔
      ∃ i j, (hits (isOpen p m₀) edges)[i]? = some (k, j) ∧ x = p.node + (i + 1) ∧ admits (leafAt p j) = true := by
  have hsize := hp.size
  rcases exists_node hp hsettled root hk with ⟨n, hnode, hchildren⟩
  constructor
  -- a child is the node of a hit from here
  · rintro ⟨n', hmem, hadm⟩
    rcases Graph.mem_children.1 hmem with ⟨m, hm, hx, hn'⟩
    rw [hnode, Option.some.injEq] at hm
    rw [← hm, hchildren] at hx
    rcases mem_below.1 hx with ⟨i, k', j, hhit, hk', rfl⟩
    obtain rfl : k' = k := by omega
    have hplace : m₀.nodes.size + i = p.node + (i + 1) := by omega
    rw [hplace, node_of_hit hp hsettled root hhit, Option.some.injEq] at hn'
    refine ⟨i, j, hhit, hplace, ?_⟩
    rw [← hreads, hn']
    exact hadm
  · rintro ⟨i, j, hhit, rfl, hadm⟩
    refine ⟨_, Graph.mem_children.2 ⟨n, hnode, ?_, node_of_hit hp hsettled root hhit⟩, ?_⟩
    · rw [hchildren]
      exact mem_below.2 ⟨i, k, j, hhit, rfl, by omega⟩
    · rw [hreads]
      exact hadm

omit hp hreads in
/-- A hit from the first of the places taken that is some place comes from the start, if it is that place. -/
theorem hit_from_start {k : Nat} {j : Int} (hhit : (k, j) ∈ hits (isOpen p m₀) edges)
    (hk : (taken (isOpen p m₀) p.place edges)[k]? = some p.place) : k = 0 := by
  rcases hsettled.hit_iff.1 hhit with ⟨-, i, hi, hij, hnone⟩
  obtain rfl : p.place = i := Option.some.inj (hk.symm.trans hi)
  by_contra hne
  exact hnone 0 p.place (by omega) rfl hij

/-- Admitted paths in the tree lead from the start to the nodes of places that are found on admitted ways. -/
theorem foundAdmitted_of_leads {x : Nat} (hpath : Relation.TransGen ((grown p m₀ edges root).Leads admits) p.node x) :
    ∃ i k j, (hits (isOpen p m₀) edges)[i]? = some (k, j) ∧ x = p.node + (i + 1) ∧
      Relation.TransGen (FoundAdmitted p m₀ admits) p.place j := by
  induction hpath with
  | single hlead =>
    rcases (leads_iff hp hsettled hreads root (k := 0) (Nat.zero_le _)).1 hlead with ⟨i, j, hhit, rfl, hadm⟩
    have hfound := hsettled.found_iff.2 ⟨0, List.mem_of_getElem? hhit, rfl⟩
    exact ⟨i, 0, j, hhit, rfl, .single ⟨hfound, hadm⟩⟩
  | tail _ hlead ih =>
    rcases ih with ⟨i, k, j, hhit, rfl, hway⟩
    have hlt := (List.getElem?_eq_some_iff.1 hhit).1
    rcases (leads_iff hp hsettled hreads root (k := i + 1) hlt).1 hlead with ⟨i', j', hhit', rfl, hadm⟩
    have hfound := hsettled.found_iff.2 ⟨i + 1, List.mem_of_getElem? hhit', getElem?_taken_succ.2 ⟨k, hhit⟩⟩
    exact ⟨i', i + 1, j', hhit', rfl, .tail hway ⟨hfound, hadm⟩⟩

/-- A place that is found on an admitted way has a node to which an admitted path leads. -/
theorem leads_of_foundAdmitted {j : Int} (hway : Relation.TransGen (FoundAdmitted p m₀ admits) p.place j) :
    ∃ i k, (hits (isOpen p m₀) edges)[i]? = some (k, j) ∧
      Relation.TransGen ((grown p m₀ edges root).Leads admits) p.node (p.node + (i + 1)) := by
  induction hway with
  | single hfound =>
    rcases hfound with ⟨hfound, hadm⟩
    rcases hsettled.found_iff.1 hfound with ⟨k, hmem, hk⟩
    obtain rfl := hit_from_start hsettled hmem hk
    rcases List.mem_iff_getElem?.1 hmem with ⟨i, hhit⟩
    exact ⟨i, 0, hhit, .single ((leads_iff hp hsettled hreads root (k := 0) (Nat.zero_le _)).2 ⟨i, _, hhit, rfl, hadm⟩)⟩
  | tail _ hfound ih =>
    rename_i j₁ j₂ _
    rcases hfound with ⟨hfound, hadm⟩
    rcases ih with ⟨i₁, k₁, hhit₁, hpath⟩
    rcases hsettled.found_iff.1 hfound with ⟨k, hmem, hk⟩
    rcases List.mem_iff_getElem?.1 hmem with ⟨i, hhit⟩
    have hlast : ∀ k, k ≤ (hits (isOpen p m₀) edges).length → (hits (isOpen p m₀) edges)[i]? = some (k, j₂) →
        (grown p m₀ edges root).Leads admits (p.node + k) (p.node + (i + 1)) :=
      fun k hk hhit => (leads_iff hp hsettled hreads root hk).2 ⟨i, j₂, hhit, rfl, hadm⟩
    cases k with
    | zero =>
      -- the place is found from the start itself
      exact ⟨i, 0, hhit, .single (hlast 0 (Nat.zero_le _) hhit)⟩
    | succ k =>
      rcases getElem?_taken_succ.1 hk with ⟨k', hhit'⟩
      -- both hits are to the place that it is found from
      have hsame : ((hits (isOpen p m₀) edges).map (·.2))[k]? = ((hits (isOpen p m₀) edges).map (·.2))[i₁]? := by
        rw [List.getElem?_map, List.getElem?_map, hhit', hhit₁]
        rfl
      have hlt := (List.getElem?_eq_some_iff.1 hhit').1
      obtain rfl : k = i₁ :=
        (List.getElem?_inj (by simpa using hlt) (nodup_hits (isOpen p m₀) edges)).1 hsame
      exact ⟨i, k + 1, hhit, .tail hpath (hlast (k + 1) hlt hhit)⟩

/-- The identities that admitted paths lead to from the start of the walk are those of the places that are found
on admitted ways. -/
theorem reaches_iff (id : Identity) :
    (∃ n, (grown p m₀ edges root).Reaches admits p.node n ∧ (n.identity == id) = true) ↔
      ∃ j, Relation.TransGen (FoundAdmitted p m₀ admits) p.place j ∧ ((leafAt p j).identity == id) = true := by
  constructor
  · rintro ⟨n, ⟨x, hpath, hx⟩, hid⟩
    rcases foundAdmitted_of_leads hp hsettled hreads root hpath with ⟨i, k, j, hhit, rfl, hway⟩
    rw [node_of_hit hp hsettled root hhit, Option.some.injEq] at hx
    refine ⟨j, hway, ?_⟩
    rw [← hx] at hid
    exact hid
  · rintro ⟨j, hway, hid⟩
    rcases leads_of_foundAdmitted hp hsettled hreads root hway with ⟨i, k, hhit, hpath⟩
    exact ⟨_, ⟨_, hpath, node_of_hit hp hsettled root hhit⟩, hid⟩

end Settled

end Tree

end VersionAudit.DepsDev
