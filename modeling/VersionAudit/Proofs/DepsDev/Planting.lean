import VersionAudit.Proofs.DepsDev.Merge
import VersionAudit.Proofs.Graph.Flatten

/-!
# Growing a tree

A merge adds its nodes one by one, each below a node that the table has already. So what a merge makes of its table
is told by a list of leaves: the place that a leaf is put below, and the leaf.

1. `Extends`: a table that another one has grown out of. A merge only adds to its table (`Merge.extends_run`).
2. `getElem?_plant`: the table after a list of leaves. A node keeps what it was made of, and has the leaves put below
   it as children.
3. `mem_children_plant`: the children in a table that begins with a root alone.
4. `Graph.Stands`: at which depth a place stands below which child of the root.
-/

namespace VersionAudit.DepsDev

open Merge

/-- A node with more children. -/
def withChildren (more : List Nat) (n : Node) : Node :=
  { n with children := n.children ++ more }

theorem withChildren_nil (n : Node) : withChildren [] n = n := by
  unfold withChildren
  rw [List.append_nil]

theorem withChildren_append (more rest : List Nat) (n : Node) :
    withChildren rest (withChildren more n) = withChildren (more ++ rest) n := by
  unfold withChildren
  rw [List.append_assoc]

/-- After a node is put below another one the new node stands at the end, and its parent has one more child. -/
theorem getElem?_grow (nodes : Array Node) (parent : Nat) (n : Node) (x : Nat) :
    (grow nodes parent n)[x]? =
      if x = nodes.size then some n
      else nodes[x]?.map (withChildren (if parent = x then [nodes.size] else [])) := by
  unfold grow
  rw [Array.getElem?_push, Array.size_modify]
  split
  · rfl
  · rw [Array.getElem?_modify]
    split
    · rfl
    · cases nodes[x]? with
      | none => rfl
      | some n' =>
        rw [Option.map_some, withChildren_nil]

/-! ## Tables that grow -/

/-- Every node of the table stands in the other one too, at the same place and with the same children, and perhaps
with more. -/
def Extends (nodes nodes' : Array Node) : Prop :=
  ∀ (i : Nat) (n : Node), nodes[i]? = some n → ∃ more, nodes'[i]? = some (withChildren more n)

theorem Extends.refl (nodes : Array Node) : Extends nodes nodes :=
  fun _ n hn => ⟨[], by rw [withChildren_nil, hn]⟩

/-- A table extends what its front extends. -/
theorem Extends.trans {nodes nodes' nodes'' : Array Node} (h : Extends nodes nodes') (h' : Extends nodes' nodes'') :
    Extends nodes nodes'' := by
  intro i n hn
  obtain ⟨more, hmore⟩ := h i n hn
  obtain ⟨rest, hrest⟩ := h' i _ hmore
  rw [withChildren_append] at hrest
  exact ⟨more ++ rest, hrest⟩

theorem extends_grow (nodes : Array Node) (parent : Nat) (n : Node) : Extends nodes (grow nodes parent n) := by
  intro i m hm
  have hold : i < nodes.size := (Array.getElem?_eq_some_iff.1 hm).1
  rw [getElem?_grow, if_neg (by omega), hm]
  exact ⟨_, rfl⟩

/-- The new node is a child of the one that it is put below. -/
theorem mem_children_grow {nodes : Array Node} {parent : Nat} (hparent : parent < nodes.size) (n : Node) (root : Nat) :
    (nodes.size, n) ∈ Graph.children ⟨grow nodes parent n, root⟩ parent := by
  refine Graph.mem_children.2 ⟨withChildren [nodes.size] nodes[parent], ?_, ?_, ?_⟩
  · rw [getElem?_grow, if_neg (by omega), if_pos rfl, Array.getElem?_eq_getElem hparent]
    rfl
  · exact List.mem_append_right _ (List.mem_singleton.2 rfl)
  · rw [getElem?_grow, if_pos rfl]

/-- A child stays a child when the table grows. -/
theorem Extends.child {nodes nodes' : Array Node} (h : Extends nodes nodes') {root i c : Nat} {n : Node}
    (hn : (c, n) ∈ Graph.children ⟨nodes, root⟩ i) :
    ∃ more, (c, withChildren more n) ∈ Graph.children ⟨nodes', root⟩ i := by
  obtain ⟨parent, hparent, hc, hn⟩ := Graph.mem_children.1 hn
  obtain ⟨rest, hrest⟩ := h i parent hparent
  obtain ⟨more, hmore⟩ := h c n hn
  exact ⟨more, Graph.mem_children.2 ⟨_, hrest, List.mem_append_left _ hc, hmore⟩⟩

/-- A merge only adds to its table. -/
theorem Merge.extends_run {fuel : Nat} {m m' : Merge} (hrun : run fuel m = .ok m') : Extends m.nodes m'.nodes := by
  have htake : ∀ {m₁ m₂ : Merge} {r : Pending} {j : Int}, Extends m.nodes m₁.nodes → True → take r m₁ j = .ok m₂ →
      Extends m.nodes m₂.nodes := by
    intro m₁ m₂ r j h _ htake
    rcases take_cases r m₁ j with hnowhere | hsame | ⟨q, derived, htaken⟩
    · rw [hnowhere] at htake
      cases htake
    · rw [hsame] at htake
      obtain rfl := Except.ok.inj htake
      exact h
    · rw [htaken] at htake
      obtain rfl := Except.ok.inj htake
      exact h.trans (extends_grow _ _ _)
  exact run_keeps (K := fun m' => Extends m.nodes m'.nodes) (Q := fun _ => True) (fun h _ => ⟨trivial, h⟩) htake
    (.refl _) hrun

/-! ## Leaves -/

/-- The table with a list of leaves more, each below the place given with it. -/
def plant (nodes : Array Node) (leaves : List (Nat × Node)) : Array Node :=
  leaves.foldl (fun nodes e => grow nodes e.1 e.2) nodes

/-- The node that a table begins with at a place, or the leaf that is put there. -/
def seed (nodes : Array Node) (leaves : List (Nat × Node)) (x : Nat) : Option Node :=
  if x < nodes.size then nodes[x]? else leaves[x - nodes.size]?.map (·.2)

/-- The places of the leaves that are put below a place, the first of them going to the place `size`. -/
def offspring (size : Nat) (leaves : List (Nat × Node)) (x : Nat) : List Nat :=
  (leaves.zipIdx.filter fun e => e.1.1 == x).map fun e => size + e.2

section Leaves

variable {nodes : Array Node} {leaves : List (Nat × Node)}

theorem plant_concat (nodes : Array Node) (leaves : List (Nat × Node)) (e : Nat × Node) :
    plant nodes (leaves ++ [e]) = grow (plant nodes leaves) e.1 e.2 := by
  unfold plant
  rw [List.foldl_append]
  rfl

/-- Every leaf takes one place. -/
theorem size_plant (nodes : Array Node) (leaves : List (Nat × Node)) :
    (plant nodes leaves).size = nodes.size + leaves.length := by
  induction leaves using List.reverseRecOn with
  | nil => rfl
  | append_singleton leaves e ih =>
    rw [plant_concat, size_grow, ih, List.length_append]
    rfl

/-- The children of a place are the places of the leaves put below it. -/
theorem mem_offspring {size x c : Nat} :
    c ∈ offspring size leaves x ↔ ∃ i n, leaves[i]? = some (x, n) ∧ c = size + i := by
  unfold offspring
  rw [List.mem_map]
  constructor
  · rintro ⟨⟨⟨x', n⟩, i⟩, hmem, rfl⟩
    rcases List.mem_filter.1 hmem with ⟨hleaf, hx⟩
    obtain rfl : x' = x := by simpa using hx
    exact ⟨i, n, List.mk_mem_zipIdx_iff_getElem?.1 hleaf, rfl⟩
  · rintro ⟨i, n, hleaf, rfl⟩
    refine ⟨((x, n), i), List.mem_filter.2 ⟨List.mk_mem_zipIdx_iff_getElem?.2 hleaf, ?_⟩, rfl⟩
    exact beq_self_eq_true x

/-- One more leaf is one more child of its parent, and of no other place. -/
theorem offspring_concat (size : Nat) (leaves : List (Nat × Node)) (e : Nat × Node) (x : Nat) :
    offspring size (leaves ++ [e]) x = offspring size leaves x ++ (if e.1 = x then [size + leaves.length] else []) := by
  unfold offspring
  rw [List.zipIdx_append, List.filter_append, List.map_append]
  -- only the last pair is new
  congr 1
  by_cases hx : e.1 = x <;> simp [hx]

/-- Every node keeps what it was made of, and has the leaves put below it as children. -/
theorem getElem?_plant (hearly : ∀ (i x : Nat) (n : Node), leaves[i]? = some (x, n) → x < nodes.size + i) (x : Nat) :
    (plant nodes leaves)[x]? = (seed nodes leaves x).map (withChildren (offspring nodes.size leaves x)) := by
  -- leaf by leaf from the end, since a leaf is put below a place before its own
  induction leaves using List.reverseRecOn with
  | nil =>
    show nodes[x]? = _
    have hnone : offspring nodes.size [] x = [] := rfl
    unfold seed
    rw [hnone]
    split
    · cases nodes[x]? with
      | none => rfl
      | some n => rw [Option.map_some, withChildren_nil]
    · rename_i hx
      rw [Array.getElem?_eq_none (by omega)]
      rfl
  | append_singleton leaves e ih =>
    have hearly' : ∀ (i x : Nat) (n : Node), leaves[i]? = some (x, n) → x < nodes.size + i := by
      intro i x n hleaf
      apply hearly i x n
      rw [List.getElem?_append_left (List.getElem?_eq_some_iff.1 hleaf).1]
      exact hleaf
    rw [plant_concat, getElem?_grow, size_plant, offspring_concat]
    split
    · -- the new node, which has nothing below it: leaves are put below earlier places
      rename_i hx
      have hseed : seed nodes (leaves ++ [e]) x = some e.2 := by
        unfold seed
        rw [if_neg (by omega), hx, Nat.add_sub_cancel_left, List.getElem?_concat_length]
        rfl
      have hnone : offspring nodes.size leaves x = [] := by
        rw [List.eq_nil_iff_forall_not_mem]
        intro c hc
        rcases mem_offspring.1 hc with ⟨i, n, hleaf, -⟩
        have hlt := hearly' i x n hleaf
        have hlt' := (List.getElem?_eq_some_iff.1 hleaf).1
        omega
      have hparent : e.1 ≠ x := by
        have hlt := hearly leaves.length e.1 e.2 List.getElem?_concat_length
        omega
      rw [hseed, hnone, if_neg hparent, List.append_nil, Option.map_some, withChildren_nil]
    · -- an old node, which has one more child if the new one is put below it
      rename_i hx
      have hseed : seed nodes (leaves ++ [e]) x = seed nodes leaves x := by
        unfold seed
        split
        · rfl
        · rw [List.getElem?_append]
          split
          · rfl
          · rw [List.getElem?_eq_none (by simp; omega), List.getElem?_eq_none (by omega)]
      rw [ih hearly', hseed, Option.map_map]
      congr 1
      funext n
      exact withChildren_append _ _ n

end Leaves

/-! ## Trees -/

section Trees

variable {root : Node} {leaves : List (Nat × Node)}

/-- The tree of a root and a list of leaves. -/
def planted (root : Node) (leaves : List (Nat × Node)) : Graph :=
  ⟨plant #[root] leaves, 0⟩

variable (hearly : ∀ (i x : Nat) (n : Node), leaves[i]? = some (x, n) → x ≤ i)

include hearly

/-- Every place of a planted tree has its seed, with the leaves put below it as children. -/
theorem getElem?_planted (x : Nat) :
    (planted root leaves).nodes[x]? = (seed #[root] leaves x).map (withChildren (offspring 1 leaves x)) := by
  apply getElem?_plant
  intro i x n hleaf
  have hle := hearly i x n hleaf
  show x < 1 + i
  omega

/-- The node of a leaf. -/
theorem getElem?_planted_succ (i : Nat) : (planted root leaves).nodes[i + 1]? =
    leaves[i]?.map fun e => withChildren (offspring 1 leaves (i + 1)) e.2 := by
  rw [getElem?_planted hearly]
  unfold seed
  rw [if_neg (by simp), Option.map_map]
  rfl

/-- The children of a place are the leaves put below it. -/
theorem mem_children_planted (hroot : root.children = []) (hbare : ∀ e ∈ leaves, e.2.children = []) {x y : Nat}
    {m : Node} : (y, m) ∈ (planted root leaves).children x ↔
      ∃ i n, y = i + 1 ∧ leaves[i]? = some (x, n) ∧ m = withChildren (offspring 1 leaves (i + 1)) n := by
  -- neither the root nor a leaf came with children
  have hchildren : ∀ r, (planted root leaves).nodes[x]? = some r → r.children = offspring 1 leaves x := by
    intro r hr
    cases x with
    | zero =>
      have hzero : (planted root leaves).nodes[0]? = some (withChildren (offspring 1 leaves 0) root) :=
        getElem?_planted hearly 0
      obtain rfl := Option.some.inj (hzero.symm.trans hr)
      unfold withChildren
      rw [hroot, List.nil_append]
    | succ i =>
      rw [getElem?_planted_succ hearly] at hr
      obtain ⟨e, he, rfl⟩ := Option.map_eq_some_iff.1 hr
      unfold withChildren
      rw [hbare e (List.mem_of_getElem? he), List.nil_append]
  rw [Graph.mem_children]
  constructor
  · rintro ⟨r, hr, hy, hm⟩
    rw [hchildren r hr] at hy
    rcases mem_offspring.1 hy with ⟨i, n, hleaf, rfl⟩
    rw [Nat.add_comm, getElem?_planted_succ hearly, hleaf] at hm
    exact ⟨i, n, Nat.add_comm 1 i, hleaf, (Option.some.inj hm).symm⟩
  · rintro ⟨i, n, rfl, hleaf, rfl⟩
    have hplace : x < (planted root leaves).nodes.size := by
      have hlt := (List.getElem?_eq_some_iff.1 hleaf).1
      have hle := hearly i x n hleaf
      have hsize : (planted root leaves).nodes.size = 1 + leaves.length := size_plant #[root] leaves
      omega
    refine ⟨_, Array.getElem?_eq_getElem hplace, ?_, ?_⟩
    · rw [hchildren _ (Array.getElem?_eq_getElem hplace)]
      exact mem_offspring.2 ⟨i, n, hleaf, Nat.add_comm i 1⟩
    · rw [getElem?_planted_succ hearly, hleaf]
      rfl

end Trees

end VersionAudit.DepsDev

namespace VersionAudit.Graph

/-- A place stands at a depth below a child of the root, the child itself at depth 1. -/
inductive Stands (g : Graph) (c : Nat) : Nat → Nat → Prop
  | child {n : Node} (h : (c, n) ∈ g.children g.root) : Stands g c 1 c
  | deeper {d x y : Nat} {n : Node} (hx : Stands g c d x) (hy : (y, n) ∈ g.children x) : Stands g c (d + 1) y

end VersionAudit.Graph
