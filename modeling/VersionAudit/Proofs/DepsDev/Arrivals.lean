import Mathlib.Logic.Relation
import VersionAudit.DepsDev.PackageGraph
import VersionAudit.Proofs.Firsts

/-!
# The order in which places are met

A package may be reached on many paths, but it is taken only once: below the first package taken that has an
edge to it.

1. `arrivals`: the places within some number of edges from a start, in the order in which they are met.
2. `Found`: the first of the arrivals with an edge to a place.
3. `Settled`: a list of edges, each with the position of its source, that lists the edges of all the places it
   leads to. A walk that has come to its end has looked at such a list.
4. `found_iff`, `transGen_found_iff`: what a settled list says about `Found`, and that every place which can be
   reached is found on the way.
-/

namespace VersionAudit.DepsDev.PackageGraph

variable (g : PackageGraph) (isOpen : Int → Bool) (start : Int)

/-- The open places that edges lead to from the given ones, each where it is met first. -/
def met (places : List Int) : List Int :=
  firstsBy (· == ·) ((places.flatMap g.targets).filter isOpen)

/-- The places within a number of edges from the start, in the order in which they are met. -/
def arrivals : Nat → List Int
  | 0 => [start]
  | n + 1 => start :: g.met isOpen (arrivals n)

/-- An edge to an open place. -/
def OpenEdge (i j : Int) : Prop :=
  j ∈ g.targets i ∧ isOpen j = true

/-- An open place is found from the first of the arrivals that has an edge to it. -/
def Found (i j : Int) : Prop :=
  isOpen j = true ∧ ∃ n, (g.arrivals isOpen start n).find? (fun i => (g.targets i).contains j) = some i

/-! ## Lists of edges -/

/-- The edges from a list of places, each with the position of its source in the list. -/
def edgesFrom (places : List Int) : List (Nat × Int) :=
  places.zipIdx.flatMap fun p => (g.targets p.1).map fun j => (p.2, j)

/-- The first edges of a list to each open place. -/
def hits (edges : List (Nat × Int)) : List (Nat × Int) :=
  firstsBy (fun x y => x.2 == y.2) (edges.filter fun e => isOpen e.2)

/-- The start, and the open places that a list of edges leads to. -/
def taken (edges : List (Nat × Int)) : List Int :=
  start :: (hits isOpen edges).map (·.2)

/-- The list holds all edges from the places it leads to, and every place is reached from an earlier one. -/
structure Settled (edges : List (Nat × Int)) : Prop where
  all : edges = g.edgesFrom (taken isOpen start edges)
  early : ∀ (i k : Nat) (j : Int), (hits isOpen edges)[i]? = some (k, j) → k ≤ i

variable {g isOpen start}

theorem Found.openEdge {i j : Int} (h : g.Found isOpen start i j) : g.OpenEdge isOpen i j := by
  rcases h with ⟨hopen, n, hfind⟩
  exact ⟨by simpa using List.find?_some hfind, hopen⟩

theorem Found.reaches {j : Int} (h : Relation.TransGen (g.Found isOpen start) start j) :
    Relation.TransGen (g.OpenEdge isOpen) start j := by
  induction h with
  | single hfound => exact .single hfound.openEdge
  | tail _ hfound ih => exact .tail ih hfound.openEdge

/-- An edge of the list leads on from the place at its position. -/
theorem mem_edgesFrom {places : List Int} {k : Nat} {j : Int} :
    (k, j) ∈ g.edgesFrom places ↔ ∃ i, places[k]? = some i ∧ j ∈ g.targets i := by
  unfold edgesFrom
  rw [List.mem_flatMap]
  constructor
  · rintro ⟨⟨i, k'⟩, hmem, hj⟩
    rcases List.mem_map.1 hj with ⟨j', hj', heq⟩
    cases heq
    exact ⟨i, List.mk_mem_zipIdx_iff_getElem?.1 hmem, hj'⟩
  · rintro ⟨i, hi, hj⟩
    exact ⟨(i, k), List.mk_mem_zipIdx_iff_getElem?.2 hi, List.mem_map.2 ⟨j, hj, rfl⟩⟩

theorem edgesFrom_concat (places : List Int) (i : Int) :
    g.edgesFrom (places ++ [i]) = g.edgesFrom places ++ (g.targets i).map fun j => (places.length, j) := by
  unfold edgesFrom
  rw [List.zipIdx_append, List.flatMap_append]
  simp

/-- The edges lead to what the places lead to, in order. -/
theorem map_edgesFrom (places : List Int) : (g.edgesFrom places).map (·.2) = places.flatMap g.targets := by
  induction places using List.reverseRecOn with
  | nil => rfl
  | append_singleton places i ih =>
    rw [edgesFrom_concat, List.map_append, ih, List.flatMap_append]
    simp [Function.comp_def]

/-- The edges stand in the order of their sources. -/
theorem pairwise_edgesFrom (places : List Int) : (g.edgesFrom places).Pairwise fun e f => e.1 ≤ f.1 := by
  induction places using List.reverseRecOn with
  | nil => exact List.Pairwise.nil
  | append_singleton places i ih =>
    rw [edgesFrom_concat, List.pairwise_append]
    refine ⟨ih, ?_, ?_⟩
    · rw [List.pairwise_map]
      exact List.pairwise_of_forall fun _ _ => Nat.le_refl _
    · rintro ⟨k, j⟩ he f hf
      rcases List.mem_map.1 hf with ⟨j', -, rfl⟩
      rcases mem_edgesFrom.1 he with ⟨i', hi', -⟩
      exact Nat.le_of_lt (List.getElem?_eq_some_iff.1 hi').1

/-! ## Hits -/

/-- A hit is an edge to an open place, and no edge to that place stands before it. -/
theorem of_mem_hits {edges : List (Nat × Int)} {k : Nat} {j : Int} (h : (k, j) ∈ hits isOpen edges) :
    (k, j) ∈ edges ∧ isOpen j = true ∧ edges.find? (·.2 == j) = some (k, j) := by
  have hmem := List.mem_filter.1 (mem_of_mem_firstsBy h)
  refine ⟨hmem.1, hmem.2, ?_⟩
  have hfirst := find?_of_mem_firstsBy (fun e : Nat × Int => e.2) h
  rw [List.find?_filter] at hfirst
  rw [← hfirst]
  congr 1
  funext e
  -- an edge to the same place leads to an open one
  by_cases he : e.2 = j
  · subst he
    simp [hmem.2]
  · simp [he]

/-- Some hit leads to every open place that an edge leads to. -/
theorem exists_mem_hits {edges : List (Nat × Int)} {k : Nat} {j : Int} (h : (k, j) ∈ edges) (hj : isOpen j = true) :
    ∃ k', (k', j) ∈ hits isOpen edges := by
  have hmem : (k, j) ∈ edges.filter fun e => isOpen e.2 := List.mem_filter.2 ⟨h, hj⟩
  obtain ⟨⟨k', j'⟩, hhit, hsame⟩ :
      ∃ y ∈ firstsBy (fun x y => x.2 == y.2) (edges.filter fun e => isOpen e.2), (y.2 == j) = true :=
    exists_mem_firstsBy (by simp) hmem
  obtain rfl : j' = j := by simpa using hsame
  exact ⟨k', hhit⟩

/-- More edges add hits among themselves. -/
theorem hits_append (isOpen : Int → Bool) (edges more : List (Nat × Int)) :
    ∃ new, hits isOpen (edges ++ more) = hits isOpen edges ++ new ∧ ∀ e ∈ new, e ∈ more := by
  unfold hits
  rw [List.filter_append]
  obtain ⟨new, heq, hnew⟩ := firstsBy_append (fun x y : Nat × Int => x.2 == y.2) (edges.filter fun e => isOpen e.2)
    (more.filter fun e => isOpen e.2)
  exact ⟨new, heq, fun e he => (List.mem_filter.1 (hnew e he)).1⟩

/-- An edge to a new place is a hit. -/
theorem hits_concat_of_new {edges : List (Nat × Int)} {k : Nat} {j : Int} (hj : isOpen j = true)
    (hnew : ∀ k', (k', j) ∉ hits isOpen edges) : hits isOpen (edges ++ [(k, j)]) = hits isOpen edges ++ [(k, j)] := by
  have hfilter : [(k, j)].filter (fun e => isOpen e.2) = [(k, j)] := by simp [hj]
  unfold hits
  rw [List.filter_append, hfilter, firstsBy_concat]
  unfold keepNew
  rw [if_neg]
  intro hany
  rcases List.any_eq_true.1 hany with ⟨⟨k', j'⟩, hmem, hsame⟩
  obtain rfl : j' = j := by simpa using hsame
  exact hnew k' hmem

/-- An edge to a place that is not open or that was hit before is none. -/
theorem hits_concat_of_old {edges : List (Nat × Int)} {k : Nat} {j : Int}
    (hold : isOpen j = false ∨ ∃ k', (k', j) ∈ hits isOpen edges) :
    hits isOpen (edges ++ [(k, j)]) = hits isOpen edges := by
  by_cases hj : isOpen j = true
  · rcases hold.resolve_left (by simp [hj]) with ⟨k', hk'⟩
    have hfilter : [(k, j)].filter (fun e => isOpen e.2) = [(k, j)] := by simp [hj]
    unfold hits at hk' ⊢
    rw [List.filter_append, hfilter, firstsBy_concat]
    unfold keepNew
    rw [if_pos]
    exact List.any_eq_true.2 ⟨_, hk', by simp⟩
  · have hfilter : [(k, j)].filter (fun e => isOpen e.2) = [] := by simp [hj]
    unfold hits
    rw [List.filter_append, hfilter, List.append_nil]

theorem nodup_hits (isOpen : Int → Bool) (edges : List (Nat × Int)) : ((hits isOpen edges).map (·.2)).Nodup := by
  rw [List.Nodup, List.pairwise_map]
  exact (pairwise_firstsBy _ _).imp ne_of_beq_false

/-- Behind the start the places are taken in the order of the hits. -/
theorem getElem?_taken_succ {edges : List (Nat × Int)} {i : Nat} {j : Int} :
    (taken isOpen start edges)[i + 1]? = some j ↔ ∃ k, (hits isOpen edges)[i]? = some (k, j) := by
  unfold taken
  rw [List.getElem?_cons_succ, List.getElem?_map, Option.map_eq_some_iff]
  constructor
  · rintro ⟨⟨k, j'⟩, hhit, rfl⟩
    exact ⟨k, hhit⟩
  · rintro ⟨k, hhit⟩
    exact ⟨(k, j), hhit, rfl⟩

/-- A place is met if an edge from the given places leads to it and it is open. -/
theorem mem_met {places : List Int} {j : Int} :
    j ∈ g.met isOpen places ↔ ∃ i ∈ places, j ∈ g.targets i ∧ isOpen j = true := by
  constructor
  · intro hj
    rcases List.mem_filter.1 (mem_of_mem_firstsBy hj) with ⟨hmem, hopen⟩
    rcases List.mem_flatMap.1 hmem with ⟨i, hi, hij⟩
    exact ⟨i, hi, hij, hopen⟩
  · rintro ⟨i, hi, hij, hopen⟩
    have hmem : j ∈ (places.flatMap g.targets).filter isOpen :=
      List.mem_filter.2 ⟨List.mem_flatMap.2 ⟨i, hi, hij⟩, hopen⟩
    obtain ⟨j', hj', hsame⟩ : ∃ y ∈ g.met isOpen places, (y == j) = true := exists_mem_firstsBy (by simp) hmem
    rwa [← eq_of_beq hsame]

/-- What is met from the first places is met first. -/
theorem prefix_met {places more : List Int} (hplaces : places <+: more) :
    g.met isOpen places <+: g.met isOpen more := by
  rcases hplaces with ⟨rest, rfl⟩
  unfold met
  rw [List.flatMap_append, List.filter_append]
  exact prefix_firstsBy _ (List.prefix_append ..)

/-! ## Settled lists -/

section Settled

variable {edges : List (Nat × Int)} (h : g.Settled isOpen start edges)

include h

/-- In a settled list a hit comes from the first place taken that has an edge to the place hit. -/
theorem Settled.hit_iff {k : Nat} {j : Int} : (k, j) ∈ hits isOpen edges ↔ isOpen j = true ∧
    ∃ i, (taken isOpen start edges)[k]? = some i ∧ j ∈ g.targets i ∧
      ∀ k' i', k' < k → (taken isOpen start edges)[k']? = some i' → j ∉ g.targets i' := by
  have hedge : ∀ k j, (k, j) ∈ edges ↔ ∃ i, (taken isOpen start edges)[k]? = some i ∧ j ∈ g.targets i := by
    intro k j
    rw [← mem_edgesFrom, ← h.all]
  have hfirst : ∀ k j, (k, j) ∈ hits isOpen edges → ∀ k' i', k' < k →
      (taken isOpen start edges)[k']? = some i' → j ∉ g.targets i' := by
    intro k j hhit k' i' hlt hi' hj
    rcases of_mem_hits hhit with ⟨-, -, hfind⟩
    rcases List.find?_eq_some_iff_append.1 hfind with ⟨-, before, after, heq, hbefore⟩
    have hsorted : edges.Pairwise fun e f => e.1 ≤ f.1 := by
      rw [h.all]
      exact pairwise_edgesFrom _
    have hmem : (k', j) ∈ edges := (hedge k' j).2 ⟨i', hi', hj⟩
    rw [heq] at hmem hsorted
    rcases List.mem_append.1 hmem with hmem | hmem
    · exact absurd (hbefore _ hmem) (by simp)
    · rcases List.mem_cons.1 hmem with heq | hmem
      · cases heq
        omega
      · have hle : k ≤ k' := (List.pairwise_cons.1 (List.pairwise_append.1 hsorted).2.1).1 _ hmem
        omega
  constructor
  · intro hhit
    rcases of_mem_hits hhit with ⟨hmem, hopen, -⟩
    rcases (hedge k j).1 hmem with ⟨i, hi, hj⟩
    exact ⟨hopen, i, hi, hj, hfirst k j hhit⟩
  · rintro ⟨hopen, i, hi, hj, hnone⟩
    rcases exists_mem_hits ((hedge k j).2 ⟨i, hi, hj⟩) hopen with ⟨k', hhit⟩
    rcases (hedge k' j).1 (of_mem_hits hhit).1 with ⟨i', hi', hj'⟩
    -- neither of the two positions can be the earlier one
    have hge : ¬ k' < k := fun hlt => hnone k' i' hlt hi' hj'
    have hle : ¬ k < k' := fun hlt => hfirst k' j hhit k i hlt hi hj
    obtain rfl : k' = k := by omega
    exact hhit

/-- The places taken are the start and what is met from them. -/
theorem Settled.taken_eq : taken isOpen start edges = start :: g.met isOpen (taken isOpen start edges) := by
  have hplaces : edges.map (·.2) = (taken isOpen start edges).flatMap g.targets := by
    rw [← map_edgesFrom, ← h.all]
  unfold met
  rw [← hplaces, List.filter_map]
  show start :: (hits isOpen edges).map (·.2) = _
  unfold hits
  rw [map_firstsBy fun e : Nat × Int => e.2]
  rfl

/-- The arrivals are taken in their order. -/
theorem Settled.prefix_arrivals (n : Nat) : g.arrivals isOpen start n <+: taken isOpen start edges := by
  -- by the number of edges: what is met from the arrivals so far is taken next
  induction n with
  | zero => exact ⟨_, rfl⟩
  | succ n ih =>
    rw [h.taken_eq]
    exact (List.prefix_cons_inj start).2 (prefix_met ih)

/-- What the places before some position lead to reaches up to that position at least: the place there hangs
below one of them. -/
theorem Settled.prefix_start_met (n : Nat) :
    (taken isOpen start edges).take (n + 2) <+: start :: g.met isOpen ((taken isOpen start edges).take (n + 1)) := by
  have hfront : start :: g.met isOpen ((taken isOpen start edges).take (n + 1)) <+: taken isOpen start edges := by
    conv_rhs => rw [h.taken_eq]
    exact (List.prefix_cons_inj start).2 (prefix_met ⟨_, List.take_append_drop ..⟩)
  refine List.prefix_of_prefix_length_le ⟨_, List.take_append_drop ..⟩ hfront ?_
  by_contra hlen
  rw [List.length_take, List.length_cons] at hlen
  -- the first place behind the prefix
  obtain ⟨j, hj⟩ : ∃ j, (taken isOpen start edges)[(g.met isOpen ((taken isOpen start edges).take (n + 1))).length + 1]?
      = some j := ⟨_, List.getElem?_eq_getElem (by omega)⟩
  rcases getElem?_taken_succ.1 hj with ⟨k, hhit⟩
  have hk := h.early _ _ _ hhit
  rcases h.hit_iff.1 (List.mem_of_getElem? hhit) with ⟨hopen, i, hi, hij, -⟩
  have hmet : j ∈ g.met isOpen ((taken isOpen start edges).take (n + 1)) := by
    refine mem_met.2 ⟨i, ?_, hij, hopen⟩
    refine List.mem_of_getElem? (i := k) ?_
    rw [List.getElem?_take_of_lt (by omega)]
    exact hi
  -- it would stand twice
  rcases List.mem_iff_getElem?.1 hmet with ⟨q, hq⟩
  have hq' : (taken isOpen start edges)[q + 1]? = some j := by
    rcases hfront with ⟨rest, hrest⟩
    rw [← hrest, List.cons_append, List.getElem?_cons_succ,
      List.getElem?_append_left (List.getElem?_eq_some_iff.1 hq).1]
    exact hq
  have hplace : ∀ p, (taken isOpen start edges)[p + 1]? = ((hits isOpen edges).map (·.2))[p]? := fun _ => rfl
  rw [hplace] at hj hq'
  have heq := (List.getElem?_inj (List.getElem?_eq_some_iff.1 hj).1 (nodup_hits isOpen edges)).1 (hj.trans hq'.symm)
  have hlt := (List.getElem?_eq_some_iff.1 hq).1
  omega

/-- After enough rounds all places taken have arrived. -/
theorem Settled.exists_arrivals : ∃ n, g.arrivals isOpen start n = taken isOpen start edges := by
  have hround : ∀ n, (taken isOpen start edges).take (n + 1) <+: g.arrivals isOpen start n := by
    intro n
    induction n with
    | zero => exact ⟨[], rfl⟩
    | succ n ih => exact (h.prefix_start_met n).trans ((List.prefix_cons_inj start).2 (prefix_met ih))
  refine ⟨(taken isOpen start edges).length, ?_⟩
  have hall := hround (taken isOpen start edges).length
  rw [List.take_of_length_le (by omega)] at hall
  exact (h.prefix_arrivals _).eq_of_length_le hall.length_le

/-- A place is found from the place taken that its hit names. -/
theorem Settled.found_iff {i j : Int} : g.Found isOpen start i j ↔
    ∃ k, (k, j) ∈ hits isOpen edges ∧ (taken isOpen start edges)[k]? = some i := by
  constructor
  -- the first arrival with an edge to the place is the first place taken with one
  · rintro ⟨hopen, n, hfind⟩
    have hfind : (taken isOpen start edges).find? (fun i => (g.targets i).contains j) = some i :=
      (h.prefix_arrivals n).find?_eq_some hfind
    rcases List.find?_eq_some_iff_getElem.1 hfind with ⟨hij, k, hk, hi, hnone⟩
    have hi : (taken isOpen start edges)[k]? = some i := List.getElem?_eq_some_iff.2 ⟨hk, hi⟩
    refine ⟨k, h.hit_iff.2 ⟨hopen, i, hi, by simpa using hij, ?_⟩, hi⟩
    intro k' i' hlt hi'
    rcases List.getElem?_eq_some_iff.1 hi' with ⟨hk', rfl⟩
    simpa using hnone k' hlt
  · rintro ⟨k, hhit, hi⟩
    rcases h.hit_iff.1 hhit with ⟨hopen, i', hi', hij, hnone⟩
    obtain rfl : i' = i := Option.some.inj (hi'.symm.trans hi)
    rcases h.exists_arrivals with ⟨n, hn⟩
    refine ⟨hopen, n, ?_⟩
    rw [hn, List.find?_eq_some_iff_getElem]
    rcases List.getElem?_eq_some_iff.1 hi with ⟨hk, hget⟩
    refine ⟨by simpa using hij, k, hk, hget, ?_⟩
    intro k' hlt
    have hlt' : k' < (taken isOpen start edges).length := by omega
    simpa using hnone k' _ hlt (List.getElem?_eq_getElem hlt')

/-- Every place taken but the start is found on a way from the start. -/
theorem Settled.transGen_found {i k : Nat} {j : Int} (hhit : (hits isOpen edges)[i]? = some (k, j)) :
    Relation.TransGen (g.Found isOpen start) start j := by
  -- the place it is found from was taken before
  induction i using Nat.strongRecOn generalizing k j with
  | ind i ih =>
    have hk := h.early i k j hhit
    have hmem := List.mem_of_getElem? hhit
    rcases h.hit_iff.1 hmem with ⟨-, p, hp, -, -⟩
    have hfound : g.Found isOpen start p j := h.found_iff.2 ⟨k, hmem, hp⟩
    cases k with
    | zero =>
      obtain rfl : start = p := Option.some.inj hp
      exact .single hfound
    | succ k =>
      rcases getElem?_taken_succ.1 hp with ⟨k', hhit'⟩
      exact .tail (ih k (by omega) hhit') hfound

/-- The places taken behind the start are those that open edges lead to. -/
theorem Settled.mem_hits_iff {j : Int} :
    (∃ k, (k, j) ∈ hits isOpen edges) ↔ Relation.TransGen (g.OpenEdge isOpen) start j := by
  constructor
  · rintro ⟨k, hhit⟩
    rcases List.mem_iff_getElem?.1 hhit with ⟨i, hi⟩
    exact Found.reaches (h.transGen_found hi)
  · -- what an open edge leads to from a place taken is taken
    have hclosed : ∀ {i j}, i ∈ taken isOpen start edges → g.OpenEdge isOpen i j →
        ∃ k, (k, j) ∈ hits isOpen edges := by
      rintro i j hi ⟨hij, hopen⟩
      rcases List.mem_iff_getElem?.1 hi with ⟨k, hk⟩
      have hedge : (k, j) ∈ edges := by
        rw [h.all]
        exact mem_edgesFrom.2 ⟨i, hk, hij⟩
      exact exists_mem_hits hedge hopen
    intro hreach
    induction hreach with
    | single hedge => exact hclosed (List.mem_cons_self ..) hedge
    | tail _ hedge ih =>
      rcases ih with ⟨k, hhit⟩
      exact hclosed (List.mem_cons_of_mem _ (List.mem_map_of_mem hhit)) hedge

/-- Every place that open edges lead to is found on the way. -/
theorem Settled.transGen_found_iff {j : Int} :
    Relation.TransGen (g.Found isOpen start) start j ↔ Relation.TransGen (g.OpenEdge isOpen) start j := by
  constructor
  · exact Found.reaches
  · intro hreach
    rcases h.mem_hits_iff.2 hreach with ⟨k, hhit⟩
    rcases List.mem_iff_getElem?.1 hhit with ⟨i, hi⟩
    exact h.transGen_found hi

end Settled

end VersionAudit.DepsDev.PackageGraph
