import Mathlib.Data.Finset.Card
import Mathlib.Logic.Relation
import VersionAudit.Graph.Flatten
import VersionAudit.Proofs.OrderedMap

/-!
# What flattening finds

A node belongs to the flattened graph if a path leads to it from the root whose nodes, the root aside, are all
admitted (`Reaches`).

1. `Explored` is the invariant of one visit: what was marked during the visit is finished, but for the visited
   place itself, whose children the caller records.
2. `explored_visit` shows that a visit keeps it. The bound of the depth is never met, since every visit marks a
   place that was not marked before.
3. `direct_flatten` and `all_flatten`: the identities of a flattened graph are exactly those of the admitted
   children of the root, and exactly those of the reached nodes.
-/

namespace VersionAudit.Graph

variable {g : Graph} {admits : Node → Bool}

/-! ## Paths of admitted nodes -/

/-- An admitted child. -/
def Leads (g : Graph) (admits : Node → Bool) (i j : Nat) : Prop :=
  ∃ n, (j, n) ∈ g.children i ∧ admits n = true

/-- A path of admitted nodes leads from a place to a node. -/
def Reaches (g : Graph) (admits : Node → Bool) (i : Nat) (n : Node) : Prop :=
  ∃ j, Relation.TransGen (g.Leads admits) i j ∧ g.nodes[j]? = some n

/-- The children of a place are the nodes at the places that it lists. -/
theorem mem_children {i j : Nat} {n : Node} :
    (j, n) ∈ g.children i ↔ ∃ m, g.nodes[i]? = some m ∧ j ∈ m.children ∧ g.nodes[j]? = some n := by
  unfold children
  cases g.nodes[i]? with
  | none => simp
  | some m =>
    simp only [List.mem_filterMap, Option.map_eq_some_iff, Prod.mk.injEq, Option.some.injEq, exists_eq_left']
    constructor
    · rintro ⟨c, hc, n', hn', rfl, rfl⟩
      exact ⟨hc, hn'⟩
    · rintro ⟨hj, hn⟩
      exact ⟨j, hj, n, hn, rfl, rfl⟩

theorem reaches_of_child {i j : Nat} {n : Node} (h : (j, n) ∈ g.children i) (hn : admits n = true) :
    g.Reaches admits i n := by
  rcases mem_children.1 h with ⟨_, _, _, hj⟩
  exact ⟨j, .single ⟨n, h, hn⟩, hj⟩

theorem Reaches.of_leads {i j : Nat} {n : Node} (h : g.Leads admits i j) (hn : g.Reaches admits j n) :
    g.Reaches admits i n := by
  rcases hn with ⟨k, hpath, hk⟩
  exact ⟨k, .head h hpath, hk⟩

/-- What is reached is admitted. -/
theorem Reaches.admitted {i : Nat} {n : Node} (h : g.Reaches admits i n) : admits n = true := by
  rcases h with ⟨j, hpath, hj⟩
  rcases Relation.TransGen.tail'_iff.1 hpath with ⟨k, -, n', hn', hadm⟩
  rcases mem_children.1 hn' with ⟨_, _, _, hj'⟩
  rw [hj, Option.some.injEq] at hj'
  rwa [hj']

/-! ## One visit -/

/-- What a visit does with one child, `fuel` bounding the depth of the visits below. -/
def visitChild (g : Graph) (admits : Node → Bool) (fuel : Nat) (r : OrderedMap Identity Node × Search)
    (c : Nat × Node) : OrderedMap Identity Node × Search :=
  if !admits c.2 then r
  else
    let found := r.1.insert c.2.identity c.2
    if r.2.visited.contains c.1 then (found, r.2)
    else
      let (deeper, s) := visit g admits fuel c.1 r.2
      (found, { s with below := s.below.complete deeper })

theorem visit_succ (g : Graph) (admits : Node → Bool) (fuel place : Nat) (s : Search) :
    visit g admits (fuel + 1) place s =
      (g.children place).foldl (visitChild g admits fuel) (∅, { s with visited := place :: s.visited }) := rfl

/-- The state `r` of a visit of `place` begun in the search `s`, after the children `done`. -/
structure Explored (g : Graph) (admits : Node → Bool) (place : Nat) (done : List (Nat × Node)) (s : Search)
    (r : OrderedMap Identity Node × Search) : Prop where
  marked : ∀ v ∈ place :: s.visited, v ∈ r.2.visited
  /-- The children looked at are recorded and marked. -/
  recorded : ∀ c ∈ done, admits c.2 = true → c.1 ∈ r.2.visited ∧ (r.1.find? c.2.identity).isSome
  /-- What else was marked on the way is finished. -/
  finished : ∀ v ∈ r.2.visited, v ∉ place :: s.visited → ∀ c ∈ g.children v, admits c.2 = true →
    c.1 ∈ r.2.visited ∧ (r.2.below.find? c.2.identity).isSome
  kept : ∀ k, (s.below.find? k).isSome → (r.2.below.find? k).isSome
  found_sound : ∀ k n, r.1.find? k = some n → (n.identity == k) = true ∧ ∃ j, (j, n) ∈ done ∧ admits n = true
  below_sound : ∀ k n, r.2.below.find? k = some n →
    s.below.find? k = some n ∨ (n.identity == k) = true ∧ g.Reaches admits place n
  found_distinct : r.1.Distinct
  below_distinct : s.below.Distinct → r.2.below.Distinct

/-- Before the first child a visit has marked its place. -/
theorem explored_start (g : Graph) (admits : Node → Bool) (place : Nat) (s : Search) :
    Explored g admits place [] s (∅, { s with visited := place :: s.visited }) where
  marked := fun _ hv => hv
  recorded := by simp
  finished := fun v hv hnew => absurd hv hnew
  kept := fun _ hk => hk
  found_sound := by simp
  below_sound := fun _ _ h => .inl h
  found_distinct := OrderedMap.distinct_empty
  below_distinct := id

/-- The number of places of the table that are not marked. -/
def unmarked (g : Graph) (visited : List Nat) : Nat :=
  ((Finset.range g.nodes.size).filter (· ∉ visited)).card

/-- The more places are marked, the fewer are not. -/
theorem unmarked_mono (g : Graph) {visited visited' : List Nat} (h : ∀ v ∈ visited, v ∈ visited') :
    g.unmarked visited' ≤ g.unmarked visited := by
  unfold unmarked
  apply Finset.card_le_card
  intro v hv
  rw [Finset.mem_filter] at hv ⊢
  exact ⟨hv.1, fun hmem => hv.2 (h v hmem)⟩

/-- Marking a new place leaves one place fewer unmarked. -/
theorem unmarked_cons_lt (g : Graph) {visited : List Nat} {place : Nat} (hplace : place < g.nodes.size)
    (hnew : place ∉ visited) : g.unmarked (place :: visited) < g.unmarked visited := by
  unfold unmarked
  apply Finset.card_lt_card
  rw [Finset.ssubset_iff_of_subset]
  · refine ⟨place, ?_, ?_⟩
    · simp [hplace, hnew]
    · simp
  · intro v hv
    rw [Finset.mem_filter] at hv ⊢
    exact ⟨hv.1, fun hmem => hv.2 (List.mem_cons_of_mem _ hmem)⟩

/-- A child already marked is recorded only. -/
private theorem explored_known {place : Nat} {done : List (Nat × Node)} {s : Search}
    {found : OrderedMap Identity Node} {t : Search} {c : Nat × Node}
    (h : Explored g admits place done s (found, t)) (hadm : admits c.2 = true) (hc : c.1 ∈ t.visited) :
    Explored g admits place (done ++ [c]) s (found.insert c.2.identity c.2, t) where
  marked := h.marked
  recorded := by
    intro d hd hdadm
    rw [OrderedMap.find?_insert]
    rcases List.mem_append.1 hd with hd | hd
    · refine ⟨(h.recorded d hd hdadm).1, ?_⟩
      split
      · rfl
      · exact (h.recorded d hd hdadm).2
    · obtain rfl := List.mem_singleton.1 hd
      exact ⟨hc, by simp⟩
  finished := h.finished
  kept := h.kept
  -- the child itself is the one that was found last under its identity
  found_sound := by
    intro k n hk
    rw [OrderedMap.find?_insert] at hk
    split at hk
    · rename_i heq
      obtain rfl := Option.some.inj hk
      exact ⟨heq, c.1, by simp, hadm⟩
    · rcases h.found_sound k n hk with ⟨hid, j, hj, hn⟩
      exact ⟨hid, j, List.mem_append_left _ hj, hn⟩
  below_sound := h.below_sound
  found_distinct := OrderedMap.distinct_insert h.found_distinct _ _
  below_distinct := h.below_distinct

/-- A child that is visited brings all below it, and its own children. -/
private theorem explored_deeper {place : Nat} {done : List (Nat × Node)} {s t u : Search}
    {found deeper : OrderedMap Identity Node} {c : Nat × Node}
    (h : Explored g admits place done s (found, t)) (hlead : g.Leads admits place c.1)
    (hd : Explored g admits c.1 (g.children c.1) t (deeper, u)) :
    Explored g admits place done s (found, { u with below := u.below.complete deeper }) where
  marked := fun v hv => hd.marked v (List.mem_cons_of_mem _ (h.marked v hv))
  recorded := fun d hdone hadm =>
    ⟨hd.marked _ (List.mem_cons_of_mem _ (h.recorded d hdone hadm).1), (h.recorded d hdone hadm).2⟩
  finished := by
    intro v hv hnew d hdv hadm
    simp only [OrderedMap.find?_complete, Option.isSome_or, Bool.or_eq_true]
    by_cases hvc : v = c.1
    · -- the place just visited: its children are in `deeper`
      subst hvc
      exact ⟨(hd.recorded d hdv hadm).1, .inr (hd.recorded d hdv hadm).2⟩
    · by_cases hvt : v ∈ t.visited
      · rcases h.finished v hvt hnew d hdv hadm with ⟨hmem, hbelow⟩
        exact ⟨hd.marked _ (List.mem_cons_of_mem _ hmem), .inl (hd.kept _ hbelow)⟩
      · rcases hd.finished v hv (by simp [hvc, hvt]) d hdv hadm with ⟨hmem, hbelow⟩
        exact ⟨hmem, .inl hbelow⟩
  kept := by
    intro k hk
    simp only [OrderedMap.find?_complete, Option.isSome_or, Bool.or_eq_true]
    exact .inl (hd.kept k (h.kept k hk))
  found_sound := h.found_sound
  -- what was below before, below the child, or is a child of the child
  below_sound := by
    intro k n hk
    simp only [OrderedMap.find?_complete, Option.or_eq_some_iff] at hk
    rcases hk with hk | ⟨-, hk⟩
    · rcases hd.below_sound k n hk with hk | ⟨hid, hreach⟩
      · exact h.below_sound k n hk
      · exact .inr ⟨hid, hreach.of_leads hlead⟩
    · rcases hd.found_sound k n hk with ⟨hid, j, hj, hadm⟩
      exact .inr ⟨hid, (reaches_of_child hj hadm).of_leads hlead⟩
  found_distinct := h.found_distinct
  below_distinct := fun hs => OrderedMap.distinct_complete (hd.below_distinct (h.below_distinct hs)) _

/-- One more child keeps the invariant, if visits below do. -/
theorem explored_visitChild {fuel place : Nat} {done : List (Nat × Node)} {s : Search}
    {r : OrderedMap Identity Node × Search} {c : Nat × Node}
    (hvisit : c.1 ∉ r.2.visited → Explored g admits c.1 (g.children c.1) r.2 (visit g admits fuel c.1 r.2))
    (hc : c ∈ g.children place) (h : Explored g admits place done s r) :
    Explored g admits place (done ++ [c]) s (visitChild g admits fuel r c) := by
  unfold visitChild
  split
  · rename_i hadm
    -- a child that is not admitted leaves no trace
    refine { h with recorded := ?_, found_sound := ?_ }
    · intro d hd hdadm
      rcases List.mem_append.1 hd with hd | hd
      · exact h.recorded d hd hdadm
      · obtain rfl := List.mem_singleton.1 hd
        simp [hdadm] at hadm
    · intro k n hk
      rcases h.found_sound k n hk with ⟨hid, j, hj, hn⟩
      exact ⟨hid, j, List.mem_append_left _ hj, hn⟩
  · rename_i hadm
    have hadm : admits c.2 = true := by simpa using hadm
    dsimp only
    split
    · rename_i hmem
      exact explored_known h hadm (by simpa using hmem)
    · rename_i hmem
      have hnew : c.1 ∉ r.2.visited := by simpa using hmem
      have hlead : g.Leads admits place c.1 := ⟨c.2, hc, hadm⟩
      have hd := explored_deeper h hlead (hvisit hnew)
      exact explored_known hd hadm ((hvisit hnew).marked _ (List.mem_cons_self ..))

/-- A visit with enough fuel explores all children of its place. -/
theorem explored_visit (g : Graph) (admits : Node → Bool) (fuel place : Nat) (s : Search)
    (hnew : place ∉ s.visited) (hfuel : g.unmarked s.visited < fuel) :
    Explored g admits place (g.children place) s (visit g admits fuel place s) := by
  induction fuel generalizing place s with
  | zero => omega
  | succ fuel ih =>
    rw [visit_succ]
    -- along the children, what was marked at the start of the visit stays marked, so the fuel lasts
    suffices h : ∀ todo done r, (∀ c ∈ todo, c ∈ g.children place) → Explored g admits place done s r →
        Explored g admits place (done ++ todo) s (todo.foldl (visitChild g admits fuel) r) by
      simpa using h (g.children place) [] _ (fun _ hc => hc) (explored_start g admits place s)
    intro todo
    induction todo with
    | nil => intro done r _ h; simpa using h
    | cons c todo ihtodo =>
      intro done r hsub h
      have hc : c ∈ g.children place := hsub c (List.mem_cons_self ..)
      have hstep : Explored g admits place (done ++ [c]) s (visitChild g admits fuel r c) := by
        refine explored_visitChild (fun hcnew => ih c.1 r.2 hcnew ?_) hc h
        rcases mem_children.1 hc with ⟨m, hm, -, -⟩
        have hplace : place < g.nodes.size := (Array.getElem?_eq_some_iff.1 hm).1
        have hlt := g.unmarked_cons_lt hplace hnew
        have hle := g.unmarked_mono h.marked
        omega
      have hrest := ihtodo (done ++ [c]) _ (fun d hd => hsub d (List.mem_cons_of_mem _ hd)) hstep
      rwa [List.append_assoc, List.singleton_append] at hrest

/-! ## The flattened graph -/

/-- The visit of the root, which a flattened graph is read off. -/
theorem explored_root (g : Graph) (admits : Node → Bool) :
    Explored g admits g.root (g.children g.root) {} (visit g admits (g.nodes.size + 1) g.root {}) := by
  apply explored_visit
  · simp
  · unfold unmarked
    simp

theorem distinct_direct_flatten (g : Graph) (admits : Node → Bool) : (g.flatten admits).direct.Distinct :=
  (explored_root g admits).found_distinct

theorem distinct_all_flatten (g : Graph) (admits : Node → Bool) : (g.flatten admits).all.Distinct :=
  OrderedMap.distinct_update ((explored_root g admits).below_distinct OrderedMap.distinct_empty) _

/-- A direct node takes the place of a deeper one. -/
theorem find?_all_flatten (g : Graph) (admits : Node → Bool) (k : Identity) :
    (g.flatten admits).all.find? k = ((g.flatten admits).direct.find? k).or
      ((visit g admits (g.nodes.size + 1) g.root {}).2.below.find? k) :=
  OrderedMap.find?_update _ (distinct_direct_flatten g admits) k

/-- What is direct is also found among all nodes, and is the same node there. -/
theorem all_eq_direct_flatten {k : Identity} {n : Node} (h : (g.flatten admits).direct.find? k = some n) :
    (g.flatten admits).all.find? k = some n := by
  rw [find?_all_flatten, h]
  rfl

/-- A direct node is an admitted child of the root and has the identity it is found by. -/
theorem direct_flatten_sound {k : Identity} {n : Node} (h : (g.flatten admits).direct.find? k = some n) :
    (n.identity == k) = true ∧ ∃ j, (j, n) ∈ g.children g.root ∧ admits n = true :=
  (explored_root g admits).found_sound k n h

/-- Every node found is reached from the root and has the identity it is found by. -/
theorem all_flatten_sound {k : Identity} {n : Node} (h : (g.flatten admits).all.find? k = some n) :
    (n.identity == k) = true ∧ g.Reaches admits g.root n := by
  rw [find?_all_flatten, Option.or_eq_some_iff] at h
  rcases h with h | ⟨-, h⟩
  · rcases direct_flatten_sound h with ⟨hid, j, hj, hn⟩
    exact ⟨hid, reaches_of_child hj hn⟩
  · rcases (explored_root g admits).below_sound k n h with h | h
    · simp at h
    · exact h

/-- Every admitted child of the root is found among the direct nodes. -/
theorem direct_flatten_complete {j : Nat} {n : Node} (h : (j, n) ∈ g.children g.root)
    (hn : admits n = true) : ((g.flatten admits).direct.find? n.identity).isSome :=
  ((explored_root g admits).recorded (j, n) h hn).2

/-- Every node reached from the root is found among all nodes. -/
theorem all_flatten_complete {n : Node} (h : g.Reaches admits g.root n) :
    ((g.flatten admits).all.find? n.identity).isSome := by
  have hroot := explored_root g admits
  rcases h with ⟨j, hpath, hj⟩
  -- a place on the path is marked: the root first, then each as a child of the one before
  have hmarked : ∀ i, Relation.ReflTransGen (g.Leads admits) g.root i →
      i ∈ (visit g admits (g.nodes.size + 1) g.root {}).2.visited := by
    intro i hi
    induction hi with
    | refl => exact hroot.marked _ (List.mem_cons_self ..)
    | tail _ hlead ih =>
      rename_i a b _
      rcases hlead with ⟨m, hm, hadm⟩
      by_cases ha : a = g.root
      · subst ha
        exact (hroot.recorded _ hm hadm).1
      · exact (hroot.finished a ih (by simpa using ha) _ hm hadm).1
  rcases Relation.TransGen.tail'_iff.1 hpath with ⟨i, hi, m, hm, hadm⟩
  rcases mem_children.1 hm with ⟨_, _, _, hj'⟩
  obtain rfl : n = m := by simpa [hj] using hj'
  rw [find?_all_flatten, Option.isSome_or, Bool.or_eq_true]
  by_cases hir : i = g.root
  · subst hir
    exact .inl (direct_flatten_complete hm hadm)
  · exact .inr (hroot.finished i (hmarked i hi) (by simpa using hir) _ hm hadm).2

/-- The identities of a flattened graph are those of the nodes reached. -/
theorem isSome_find?_all_flatten {k : Identity} :
    ((g.flatten admits).all.find? k).isSome ↔ ∃ n, g.Reaches admits g.root n ∧ (n.identity == k) = true := by
  constructor
  · intro h
    rcases Option.isSome_iff_exists.1 h with ⟨n, hn⟩
    rcases all_flatten_sound hn with ⟨hid, hreach⟩
    exact ⟨n, hreach, hid⟩
  · rintro ⟨n, hreach, hid⟩
    rw [← OrderedMap.find?_congr _ hid]
    exact all_flatten_complete hreach

end VersionAudit.Graph

namespace VersionAudit

/-- Every node stands under its own identity, no two under the same, and a direct node is the one that stands
among all nodes. -/
structure DependencyMap.Coherent (m : DependencyMap) : Prop where
  distinct : m.all.Distinct
  identity : ∀ k n, m.all.find? k = some n → (n.identity == k) = true
  direct : ∀ k n, m.direct.find? k = some n → m.all.find? k = some n

/-- A flattened graph is coherent: its keys are distinct, and each stands for a node of its own. -/
theorem Graph.coherent_flatten (g : Graph) (admits : Node → Bool) : (g.flatten admits).Coherent where
  distinct := distinct_all_flatten g admits
  identity := fun _ _ h => (all_flatten_sound h).1
  direct := fun _ _ h => all_eq_direct_flatten h

/-- In a coherent map the nodes are those that the look-up finds. -/
theorem DependencyMap.Coherent.mem_values_iff {m : DependencyMap} (h : m.Coherent) {n : Node} :
    n ∈ m.all.values ↔ m.all.find? n.identity = some n := by
  unfold OrderedMap.values
  rw [List.mem_map]
  constructor
  · rintro ⟨⟨k, n'⟩, hmem, rfl⟩
    have hk := OrderedMap.find?_of_mem h.distinct hmem
    rw [OrderedMap.find?_congr _ (h.identity k n' hk)]
    exact hk
  · intro hn
    rcases OrderedMap.exists_mem_of_find? hn with ⟨k, hmem, -⟩
    exact ⟨(k, n), hmem, rfl⟩

end VersionAudit
