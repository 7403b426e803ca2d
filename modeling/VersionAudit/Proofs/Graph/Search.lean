import VersionAudit.Proofs.Graph.Flatten

/-!
# The search behind flattening

A flattened graph is read off a search whose depth is bounded. The search has no need of the bound: `Searches` says
what it does, child by child, and a derivation of it is a run that comes to its end.

1. `Searches.unique`: the search has one outcome only.
2. `searches_visit`: a bounded visit with enough fuel is a run of the search.
3. `flatten_exact`: the flattened graph is read off the one outcome of the search, and holds exactly the admitted
   children of the root and exactly the nodes reached.
-/

namespace VersionAudit.Graph

/-- The state of a search: the children recorded for the place that is visited, and what is known of the graph. -/
abbrev SearchState := OrderedMap Identity Node × Search

/-- The search that has just come to a place. -/
def Search.enter (s : Search) (place : Nat) : SearchState :=
  (∅, { s with visited := place :: s.visited })

/-- What a search does with the children of a place, one after the other. A child that is admitted is recorded. If
its place is new, the search first goes through the children there, to any depth. -/
inductive Searches (g : Graph) (admits : Node → Bool) : List (Nat × Node) → SearchState → SearchState → Prop
  | done (r : SearchState) : Searches g admits [] r r
  | refused {c : Nat × Node} {cs : List (Nat × Node)} {r r' : SearchState} (hadm : admits c.2 = false)
      (rest : Searches g admits cs r r') : Searches g admits (c :: cs) r r'
  | known {c : Nat × Node} {cs : List (Nat × Node)} {r r' : SearchState} (hadm : admits c.2 = true)
      (hold : c.1 ∈ r.2.visited) (rest : Searches g admits cs (r.1.insert c.2.identity c.2, r.2) r') :
      Searches g admits (c :: cs) r r'
  | entered {c : Nat × Node} {cs : List (Nat × Node)} {r inner r' : SearchState} (hadm : admits c.2 = true)
      (hnew : c.1 ∉ r.2.visited) (below : Searches g admits (g.children c.1) (r.2.enter c.1) inner)
      (rest : Searches g admits cs
        (r.1.insert c.2.identity c.2, { inner.2 with below := inner.2.below.complete inner.1 }) r') :
      Searches g admits (c :: cs) r r'

variable {g : Graph} {admits : Node → Bool}

/-- Whatever is marked stays marked. -/
theorem Searches.marked {cs : List (Nat × Node)} {r r' : SearchState} (h : g.Searches admits cs r r') :
    ∀ v ∈ r.2.visited, v ∈ r'.2.visited := by
  induction h with
  | done r =>
    intro v hv
    exact hv
  | refused _ _ ih => exact ih
  | known _ _ _ ih => exact ih
  | entered _ _ _ _ ihbelow ihrest =>
    intro v hv
    apply ihrest
    apply ihbelow
    exact List.mem_cons_of_mem _ hv

/-- A search has one outcome. -/
theorem Searches.unique {cs : List (Nat × Node)} {r r₁ r₂ : SearchState} (h₁ : g.Searches admits cs r r₁)
    (h₂ : g.Searches admits cs r r₂) : r₁ = r₂ := by
  -- each child settles which case it is: not admitted, entered before, or new
  induction h₁ generalizing r₂ with
  | done r =>
    cases h₂
    rfl
  | refused hadm _ ih =>
    cases h₂ with
    | refused _ rest => exact ih rest
    | known hadm' _ _ => rw [hadm] at hadm'; cases hadm'
    | entered hadm' _ _ _ => rw [hadm] at hadm'; cases hadm'
  | known hadm hold _ ih =>
    cases h₂ with
    | refused hadm' _ => rw [hadm] at hadm'; cases hadm'
    | known _ _ rest => exact ih rest
    | entered _ hnew _ _ => exact absurd hold hnew
  | entered hadm hnew _ _ ihbelow ihrest =>
    cases h₂ with
    | refused hadm' _ => rw [hadm] at hadm'; cases hadm'
    | known _ hold _ => exact absurd hold hnew
    | entered _ _ below rest =>
      obtain rfl := ihbelow below
      exact ihrest rest

/-- One child more is looked at by a bounded visit as by the search, if the visits below are runs of the search. -/
theorem searches_cons {fuel : Nat} {c : Nat × Node} {cs : List (Nat × Node)} {r r' : SearchState}
    (hvisit : c.1 ∉ r.2.visited →
      g.Searches admits (g.children c.1) (r.2.enter c.1) (visit g admits fuel c.1 r.2))
    (hrest : g.Searches admits cs (visitChild g admits fuel r c) r') : g.Searches admits (c :: cs) r r' := by
  unfold visitChild at hrest
  by_cases hadm : admits c.2 = true
  · rw [hadm] at hrest
    by_cases hold : c.1 ∈ r.2.visited
    · have hcontains : r.2.visited.contains c.1 = true := by simpa using hold
      simp only [Bool.not_true, Bool.false_eq_true, if_false, hcontains, if_true] at hrest
      exact .known hadm hold hrest
    · have hcontains : r.2.visited.contains c.1 = false := by simpa using hold
      simp only [Bool.not_true, Bool.false_eq_true, if_false, hcontains] at hrest
      exact .entered hadm hold (hvisit hold) hrest
  · have hadm : admits c.2 = false := by simpa using hadm
    rw [hadm] at hrest
    exact .refused hadm hrest

/-- A visit with enough fuel is a run of the search. -/
theorem searches_visit (g : Graph) (admits : Node → Bool) (fuel place : Nat) (s : Search)
    (hnew : place ∉ s.visited) (hfuel : g.unmarked s.visited < fuel) :
    g.Searches admits (g.children place) (s.enter place) (visit g admits fuel place s) := by
  induction fuel generalizing place s with
  | zero => omega
  | succ fuel ih =>
    rw [visit_succ]
    -- the fuel lasts along the children, since what is marked on entering the place stays marked
    suffices h : ∀ todo r, (∀ c ∈ todo, c ∈ g.children place) → (∀ v ∈ place :: s.visited, v ∈ r.2.visited) →
        g.Searches admits todo r (todo.foldl (visitChild g admits fuel) r) from
      h _ _ (fun _ hc => hc) (fun _ hv => hv)
    intro todo
    induction todo with
    | nil =>
      intro r _ _
      exact .done r
    | cons c todo ihtodo =>
      intro r hsub hmarked
      have hc : c ∈ g.children place := hsub c (List.mem_cons_self ..)
      have hvisit : c.1 ∉ r.2.visited →
          g.Searches admits (g.children c.1) (r.2.enter c.1) (visit g admits fuel c.1 r.2) := by
        intro hcnew
        apply ih _ _ hcnew
        rcases mem_children.1 hc with ⟨m, hm, -, -⟩
        have hplace : place < g.nodes.size := (Array.getElem?_eq_some_iff.1 hm).1
        have hlt := g.unmarked_cons_lt hplace hnew
        have hle := g.unmarked_mono hmarked
        omega
      -- the step itself, with nothing to follow, shows that no mark is lost
      have hstep : g.Searches admits [c] r (visitChild g admits fuel r c) := searches_cons hvisit (.done _)
      refine searches_cons hvisit (ihtodo _ ?_ ?_)
      · intro d hd
        exact hsub d (List.mem_cons_of_mem _ hd)
      · intro v hv
        exact hstep.marked v (hmarked v hv)

/-- The visit that a flattened graph is read off is the one run of the search from the root. -/
theorem searches_root_iff (g : Graph) (admits : Node → Bool) (r : SearchState) :
    g.Searches admits (g.children g.root) (Search.enter {} g.root) r ↔
      r = visit g admits (g.nodes.size + 1) g.root {} := by
  have hrun : g.Searches admits (g.children g.root) (Search.enter {} g.root)
      (visit g admits (g.nodes.size + 1) g.root {}) := by
    -- there are not more nodes than levels, so that the bound is not reached
    apply searches_visit
    · simp
    · unfold unmarked
      simp
  constructor
  · intro h
    exact h.unique hrun
  · rintro rfl
    exact hrun

/-- The identities of the direct nodes are those of the admitted children of the root. -/
theorem isSome_find?_direct_flatten {k : Identity} :
    ((g.flatten admits).direct.find? k).isSome ↔
      ∃ j n, (j, n) ∈ g.children g.root ∧ admits n = true ∧ (n.identity == k) = true := by
  constructor
  · intro h
    rcases Option.isSome_iff_exists.1 h with ⟨n, hn⟩
    rcases direct_flatten_sound hn with ⟨hid, j, hj, hadm⟩
    exact ⟨j, n, hj, hadm, hid⟩
  · rintro ⟨j, n, hj, hadm, hid⟩
    rw [← OrderedMap.find?_congr _ hid]
    exact direct_flatten_complete hj hadm

/-- Flattening comes to its end and loses nothing, however the nodes of the graph are shared or lie on cycles. The
search from the root has one outcome, which the two maps are read off. The direct map has just the identities of the
admitted children of the root, and the map of all nodes just those of the nodes to which a path of admitted nodes
leads from the root. Every node stands under its own identity, and a direct one is the same in both maps. -/
theorem flatten_exact (g : Graph) (admits : Node → Bool) :
    (∃ s, (∀ r, g.Searches admits (g.children g.root) (Search.enter {} g.root) r ↔
        r = ((g.flatten admits).direct, s)) ∧
      (g.flatten admits).all = s.below.update (g.flatten admits).direct) ∧
    (g.flatten admits).direct.Distinct ∧ (g.flatten admits).all.Distinct ∧
    (∀ k, ((g.flatten admits).direct.find? k).isSome ↔
      ∃ j n, (j, n) ∈ g.children g.root ∧ admits n = true ∧ (n.identity == k) = true) ∧
    (∀ k, ((g.flatten admits).all.find? k).isSome ↔
      ∃ n, g.Reaches admits g.root n ∧ (n.identity == k) = true) ∧
    (∀ k n, (g.flatten admits).direct.find? k = some n →
      (n.identity == k) = true ∧ (∃ j, (j, n) ∈ g.children g.root ∧ admits n = true) ∧
        (g.flatten admits).all.find? k = some n) ∧
    ∀ k n, (g.flatten admits).all.find? k = some n → (n.identity == k) = true ∧ g.Reaches admits g.root n := by
  -- the search comes to its end, each key stands once, and then both maps are described
  refine ⟨⟨(visit g admits (g.nodes.size + 1) g.root {}).2, searches_root_iff g admits, rfl⟩,
    distinct_direct_flatten g admits, distinct_all_flatten g admits, ?_, ?_, ?_, ?_⟩
  · intro k
    exact isSome_find?_direct_flatten
  · intro k
    exact isSome_find?_all_flatten
  · intro k n h
    rcases direct_flatten_sound h with ⟨hid, hchild⟩
    exact ⟨hid, hchild, all_eq_direct_flatten h⟩
  · intro k n h
    exact all_flatten_sound h

end VersionAudit.Graph
