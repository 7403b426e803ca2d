import Mathlib.Data.List.Nodup
import Mathlib.Logic.Relation

/-!
# Visiting everything once

A recursion that marks what it has visited comes to its end although its steps lead in circles.

1. `remaining`: how much is not marked yet. Each visit makes it smaller.
2. `DepthFirst`: the order in which such a recursion visits places. No place comes twice (`DepthFirst.nodup`), and the
   places are those that the steps lead to (`DepthFirst.mem_iff`).
-/

namespace VersionAudit

variable {α : Type} [DecidableEq α]

/-! ## What is left to visit -/

/-- How many of the listed things are not marked yet. -/
def remaining (listed marked : List α) : Nat :=
  (listed.filter (· ∉ marked)).length

theorem remaining_le_length (listed marked : List α) : remaining listed marked ≤ listed.length :=
  List.length_filter_le ..

theorem filter_sublist_of_subset (listed : List α) {marked after : List α} (h : marked ⊆ after) :
    (listed.filter (· ∉ after)).Sublist (listed.filter (· ∉ marked)) := by
  refine List.monotone_filter_right listed fun x hx => ?_
  rw [decide_eq_true_eq] at hx ⊢
  exact fun hmarked => hx (h hmarked)

theorem remaining_mono (listed : List α) {marked after : List α} (h : marked ⊆ after) :
    remaining listed after ≤ remaining listed marked :=
  (filter_sublist_of_subset listed h).length_le

/-- Marking one of the things makes less remain. -/
theorem remaining_cons_lt {listed marked : List α} {x : α} (hx : x ∈ listed) (hnew : x ∉ marked) :
    remaining listed (x :: marked) < remaining listed marked := by
  -- what remains is a part of what remained, and a proper one, as `x` is missing
  have hsublist := filter_sublist_of_subset listed (List.subset_cons_self x marked)
  refine Nat.lt_of_le_of_ne hsublist.length_le fun hlength => ?_
  have hmem : x ∈ listed.filter (· ∉ marked) := List.mem_filter.2 ⟨hx, by simpa using hnew⟩
  rw [← hsublist.eq_of_length hlength] at hmem
  simp at hmem

/-! ## Depth first -/

omit [DecidableEq α] in
/-- Visiting some places one after the other, each of them with the places that it leads to, if those of the first list are
marked already. A marked place is passed over. -/
inductive DepthFirst (next : α → List α) : List α → List α → List α → Prop
  | done {marked : List α} : DepthFirst next marked [] []
  | again {marked places order : List α} {x : α} (old : x ∈ marked) (rest : DepthFirst next marked places order) :
    DepthFirst next marked (x :: places) order
  | first {marked places order : List α} {x : α} (new : x ∉ marked)
    (rest : DepthFirst next (x :: marked) (next x ++ places) order) : DepthFirst next marked (x :: places) (x :: order)

namespace DepthFirst

omit [DecidableEq α]

variable {next : α → List α} {marked places order : List α}

/-- What is visited for some places is marked when further ones are visited. -/
theorem append {more order' : List α} (h : DepthFirst next marked places order)
    (h' : DepthFirst next (order.reverse ++ marked) more order') : DepthFirst next marked (places ++ more) (order ++ order') := by
  induction h with
  | done => exact h'
  | again old rest ih => exact .again old (ih h')
  | @first marked places order x new rest ih =>
    rw [List.reverse_cons, List.append_assoc] at h'
    have hrest := ih h'
    rw [List.append_assoc] at hrest
    exact .first new hrest

/-- A new place is visited before all that it leads to. -/
theorem visit {x : α} (hnew : x ∉ marked) (h : DepthFirst next (x :: marked) (next x) order) :
    DepthFirst next marked [x] (x :: order) :=
  .first hnew (by rwa [List.append_nil])

/-- No place is visited twice, nor one that is marked. -/
theorem nodup (h : DepthFirst next marked places order) : order.Nodup ∧ ∀ x ∈ order, x ∉ marked := by
  induction h with
  | done => exact ⟨List.nodup_nil, fun x hx => absurd hx List.not_mem_nil⟩
  | again old rest ih => exact ih
  | first new rest ih =>
    obtain ⟨hnodup, hfresh⟩ := ih
    refine ⟨List.nodup_cons.2 ⟨fun hmem => hfresh _ hmem (List.mem_cons_self ..), hnodup⟩, ?_⟩
    exact List.forall_mem_cons.2 ⟨new, fun y hy => List.not_mem_of_not_mem_cons (hfresh y hy)⟩

/-- A place is visited only if the steps lead to it. -/
theorem exists_reach (h : DepthFirst next marked places order) :
    ∀ x ∈ order, ∃ start ∈ places, Relation.ReflTransGen (fun x y => y ∈ next x) start x := by
  induction h with
  | done => simp
  | again old rest ih =>
    intro x hx
    obtain ⟨start, hstart, hreach⟩ := ih x hx
    exact ⟨start, List.mem_cons_of_mem _ hstart, hreach⟩
  | first new rest ih =>
    refine List.forall_mem_cons.2 ⟨⟨_, List.mem_cons_self .., .refl⟩, fun x hx => ?_⟩
    obtain ⟨start, hstart, hreach⟩ := ih x hx
    -- what comes later starts at a step of this place, or at another given place
    rcases List.mem_append.1 hstart with hstep | hstart
    · exact ⟨_, List.mem_cons_self .., hreach.head hstep⟩
    · exact ⟨start, List.mem_cons_of_mem _ hstart, hreach⟩

/-- All the given places are visited or marked, and so is all that a visited place leads to. -/
theorem closed (h : DepthFirst next marked places order) :
    (∀ x ∈ places, x ∈ order ∨ x ∈ marked) ∧ ∀ x ∈ order, ∀ y ∈ next x, y ∈ order ∨ y ∈ marked := by
  induction h with
  | done => simp
  | again old rest ih => exact ⟨List.forall_mem_cons.2 ⟨.inr old, ih.1⟩, ih.2⟩
  | @first marked places order x new rest ih =>
    -- the rest counts the new place as marked, but here it is one of those visited
    have hcover {y : α} (hy : y ∈ order ∨ y ∈ x :: marked) : y ∈ x :: order ∨ y ∈ marked := by
      rw [List.mem_cons] at hy ⊢
      tauto
    obtain ⟨hplaces, hnext⟩ := ih
    refine ⟨List.forall_mem_cons.2 ⟨.inl (List.mem_cons_self ..), fun y hy => ?_⟩, ?_⟩
    · exact hcover (hplaces y (List.mem_append_right _ hy))
    · refine List.forall_mem_cons.2 ⟨fun y hy => ?_, fun z hz y hy => ?_⟩
      · exact hcover (hplaces y (List.mem_append_left _ hy))
      · exact hcover (hnext z hz y hy)

/-- The given place is visited first. -/
theorem head?_eq {start : α} (h : DepthFirst next [] [start] order) : order.head? = some start := by
  cases h with
  | again old => exact absurd old List.not_mem_nil
  | first => rfl

/-- From one place just those places are visited that the steps lead to. -/
theorem mem_iff {start : α} (h : DepthFirst next [] [start] order) (x : α) :
    x ∈ order ↔ Relation.ReflTransGen (fun x y => y ∈ next x) start x := by
  constructor
  · intro hx
    obtain ⟨start', hstart, hreach⟩ := h.exists_reach x hx
    rwa [List.mem_singleton.1 hstart] at hreach
  · intro hreach
    obtain ⟨hplaces, hnext⟩ := h.closed
    induction hreach with
    | refl => simpa using hplaces start (List.mem_singleton_self start)
    | tail _ hstep ih => simpa using hnext _ ih _ hstep

end DepthFirst

end VersionAudit
