import Mathlib.Data.List.InsertIdx
import VersionAudit.Proofs.Sorting.Merging
import VersionAudit.Proofs.Sorting.Relabelling

/-!
# Sorting puts in order

Where no comparison contradicts another, the sorted list ascends: no element precedes one that stands before it.

1. `ascends_merge`, `ascends_mergeRuns`: what is merged of two ascending runs ascends.
2. `ascends_of_mem_runs`: the runs that a list is cut into ascend.
3. `ascends_sortBy`: the sorted list ascends. `ascends_sortBy_of_mem`: only comparisons between its elements matter.
-/

namespace VersionAudit.Sorting

variable {α : Type} {lt : α → α → Bool}

/-! ## Two runs -/

/-- No element precedes one that stands before it. -/
def Ascends (lt : α → α → Bool) (xs : List α) : Prop :=
  xs.Pairwise fun a b => lt b a = false

/-- The only one of the first elements is the first one. -/
theorem head?_of_mem_take_one {xs : List α} {x : α} (h : x ∈ xs.take 1) : xs.head? = some x := by
  cases xs with
  | nil => cases h
  | cons y ys =>
    rw [List.take_succ_cons, List.take_zero, List.mem_singleton] at h
    rw [h]
    rfl

theorem mem_merge {d : Direction} {left right : List α} {patience : Nat} {x : α} :
    x ∈ (merge d lt left right patience).1 ↔ x ∈ left ∨ x ∈ right := by
  have hcontent := coe_merge d lt left right patience
  rw [Multiset.coe_add, Multiset.coe_eq_coe] at hcontent
  rw [hcontent.mem_iff, List.mem_append]

section Merges

variable (hlt : Consistent lt)

include hlt

/-- Two ascending runs, of which the right one has the least element and the left one a greatest, become an ascending
run. -/
theorem ascends_merge (d : Direction) {left right : List α} (hleft : Ascends lt left) (hright : Ascends lt right)
    (hfirst : ∀ b, right.head? = some b → ∀ a ∈ left, lt a b = false)
    (hlast : ∀ a, left.getLast? = some a → ∀ b ∈ right, lt a b = false) (patience : Nat) :
    Ascends lt (merge d lt left right patience).1 := by
  cases d with
  -- one element is taken before the merge begins, which is right by what is known of the ends
  | forward =>
    have hstart : (Merging.takeRight .forward 1 ⟨left, right, []⟩).Ordered .forward lt := by
      have hordered : Merging.Ordered .forward lt ⟨left, right, []⟩ := ⟨hleft, hright, hlast⟩
      apply hordered.takeRight
      intro b hb a ha
      exact hfirst b (head?_of_mem_take_one hb) a ha
    exact (hstart.run hlt _ _).pairwise_result (Merging.isFinished_run ..)
  | backward =>
    have hstart : (Merging.takeLeft .backward 1 ⟨left.reverse, right.reverse, []⟩).Ordered .backward lt := by
      have hordered : Merging.Ordered .backward lt ⟨left.reverse, right.reverse, []⟩ := by
        refine ⟨List.pairwise_reverse.2 hleft, List.pairwise_reverse.2 hright, ?_⟩
        intro b hb a ha
        rw [List.getLast?_reverse] at hb
        exact hfirst b hb a (List.mem_reverse.1 ha)
      apply hordered.takeLeft
      intro a ha b hb
      have hhead := head?_of_mem_take_one ha
      rw [List.head?_reverse] at hhead
      exact hlast a hhead b (List.mem_reverse.1 hb)
    exact List.pairwise_reverse.2 ((hstart.run hlt _ _).pairwise_result (Merging.isFinished_run ..))

/-- The last element of an ascending run precedes none of it. -/
theorem Ascends.last {xs : List α} (h : Ascends lt xs) {a : α} (ha : xs.getLast? = some a) :
    ∀ x ∈ xs, lt a x = false := by
  obtain ⟨front, rfl⟩ := List.getLast?_eq_some_iff.1 ha
  intro x hx
  rcases List.mem_append.1 hx with hx | hx
  · exact (List.pairwise_append.1 h).2.2 x hx a (List.mem_singleton.2 rfl)
  · rw [List.mem_singleton.1 hx]
    by_contra hself
    exact hself (hlt.asymm (by simpa using hself))

/-- In an ascending run those that an element does not precede come first. -/
theorem Ascends.front {xs : List α} (h : Ascends lt xs) (b : α) :
    xs.Pairwise fun x y => (!lt b y) = true → (!lt b x) = true := by
  refine h.imp ?_
  intro x y hxy hy
  rw [Bool.not_eq_true'] at hy ⊢
  exact hlt.trans hxy hy

/-- From the back of an ascending run, those that do not precede an element come first. -/
theorem Ascends.back {xs : List α} (h : Ascends lt xs) (a : α) :
    xs.reverse.Pairwise fun x y => (!lt y a) = true → (!lt x a) = true := by
  rw [List.pairwise_reverse]
  refine h.imp ?_
  intro x y hxy hx
  rw [Bool.not_eq_true'] at hx ⊢
  exact hlt.trans hx hxy

/-- Where an ascending run is cut by a search from the back. -/
theorem Ascends.cut_back {xs : List α} (h : Ascends lt xs) {a : α} {count : Nat}
    (hcount : count = xs.length - leap .backward (fun y => !lt y a) xs.reverse) :
    (∀ x ∈ xs.take count, lt x a = true) ∧ ∀ x ∈ xs.drop count, lt x a = false := by
  have hback := h.back hlt a
  constructor
  · intro x hx
    rw [hcount, ← List.mem_reverse, ← List.drop_reverse, drop_leap hback] at hx
    simpa using not_of_mem_dropWhile hback hx
  · intro x hx
    rw [hcount, ← List.mem_reverse, ← List.take_reverse, take_leap hback] at hx
    simpa using List.mem_takeWhile_imp hx

omit hlt in
/-- What is merged out of the inner parts of two ascending runs fits in between their outer parts. -/
theorem ascends_around {front low high back merged : List α} (hleft : Ascends lt (front ++ low))
    (hright : Ascends lt (high ++ back)) (hfront : ∀ x ∈ front, ∀ y ∈ high ++ back, lt y x = false)
    (hback : ∀ x ∈ low, ∀ y ∈ back, lt y x = false) (hmerged : Ascends lt merged)
    (hmem : ∀ x ∈ merged, x ∈ low ∨ x ∈ high) : Ascends lt (front ++ merged ++ back) := by
  rcases List.pairwise_append.1 hleft with ⟨hfronts, -, hunder⟩
  rcases List.pairwise_append.1 hright with ⟨-, hbacks, hover⟩
  -- the front goes below all of the middle part, and then both go below the back
  have hinner : Ascends lt (front ++ merged) := by
    refine List.pairwise_append.2 ⟨hfronts, hmerged, ?_⟩
    intro x hx y hy
    rcases hmem y hy with hlow | hhigh
    · exact hunder x hx y hlow
    · exact hfront x hx y (List.mem_append_left back hhigh)
  refine List.pairwise_append.2 ⟨hinner, hbacks, ?_⟩
  intro x hx y hy
  rcases List.mem_append.1 hx with hx | hx
  · exact hfront x hx y (List.mem_append_right high hy)
  · rcases hmem x hx with hlow | hhigh
    · exact hback x hlow y hy
    · exact hover x hhigh y hy

/-- Two ascending runs become an ascending run. What stays in front is not preceded by the first element of the right
run, and what stays at the back does not precede the last element of the left one. -/
theorem ascends_mergeRuns {left right : List α} (hleft : Ascends lt left) (hright : Ascends lt right)
    (patience : Nat) : Ascends lt (mergeRuns lt left right patience).1 := by
  cases hr : right with
  | nil => exact hleft
  | cons b rest =>
    rw [hr] at hright
    have hfirst := hleft.front hlt b
    simp only [mergeRuns]
    -- the left run is cut in front of what the first element of the right run precedes
    generalize hkept : leap .forward (fun a => !lt b a) left = kept
    have htaken : ∀ x ∈ left.take kept, ∀ y ∈ b :: rest, lt y x = false := by
      intro x hx
      rw [← hkept, take_leap hfirst] at hx
      have hbelow : lt b x = false := by simpa using List.mem_takeWhile_imp hx
      exact Merging.inOrder_of_head (d := .forward) hlt hright hbelow
    have hdropped : ∀ x ∈ left.drop kept, lt b x = true := by
      intro x hx
      rw [← hkept, drop_leap hfirst] at hx
      simpa using not_of_mem_dropWhile hfirst hx
    rw [← List.take_append_drop kept left] at hleft
    split
    · -- the whole left run stays in front
      rename_i hnone
      rw [List.getLast?_eq_none_iff] at hnone
      rw [hnone, List.append_nil] at hleft
      have hall : left = left.take kept := by
        rw [← List.append_nil (left.take kept), ← hnone, List.take_append_drop]
      rw [hall]
      exact List.pairwise_append.2 ⟨hleft, hright, htaken⟩
    · -- the right run is cut behind what precedes the last element of the left one
      rename_i a ha
      generalize hcount : (b :: rest).length - leap .backward (fun b => !lt b a) (b :: rest).reverse = count
      rcases hright.cut_back hlt hcount.symm with ⟨hhigh, hover⟩
      have hlow : Ascends lt (left.drop kept) := (List.pairwise_append.1 hleft).2.1
      have hbehind : ∀ x ∈ left.drop kept, ∀ y ∈ (b :: rest).drop count, lt y x = false := by
        intro x hx y hy
        exact hlt.trans (hlow.last hlt ha x hx) (hover y hy)
      rw [← List.take_append_drop count (b :: rest)] at hright htaken
      split
      · -- the whole right run stays at the back
        rename_i hnone
        rw [List.isEmpty_iff] at hnone
        have haround := ascends_around hleft hright htaken hbehind hlow fun x hx => .inl hx
        rw [List.take_append_drop] at haround
        have hall : (b :: rest).drop count = b :: rest := by
          rw [← List.nil_append ((b :: rest).drop count), ← hnone, List.take_append_drop]
        rw [hall] at haround
        exact haround
      · refine ascends_around hleft hright htaken hbehind ?_ fun x hx => mem_merge.1 hx
        refine ascends_merge hlt _ hlow (List.pairwise_append.1 hright).1 ?_ ?_ patience
        · -- the first element of the right run precedes all that is merged of the left one
          intro b' hb' x hx
          have hsame : b' = b := by
            cases count with
            | zero => cases hb'
            | succ count => exact (Option.some.inj hb').symm
          rw [hsame]
          exact hlt.asymm (hdropped x hx)
        · intro a' ha' y hy
          obtain rfl := Option.some.inj (ha.symm.trans ha')
          exact hlt.asymm (hhigh y hy)

end Merges

/-! ## Runs -/

section Runs

variable (hlt : Consistent lt)

include hlt

/-- The ascending part at the front ascends. -/
theorem ascends_ascending (last : α) (xs : List α) : Ascends lt (last :: (ascending lt last xs).1) := by
  induction xs generalizing last with
  | nil => exact List.pairwise_singleton _ _
  | cons x xs ih =>
    unfold ascending
    by_cases hx : lt x last = true
    · rw [if_pos hx]
      exact List.pairwise_singleton _ _
    · rw [if_neg hx]
      rw [Bool.not_eq_true] at hx
      refine List.pairwise_cons.2 ⟨?_, ih x⟩
      exact Merging.inOrder_of_head (d := .forward) hlt (ih x) hx

/-- The descending part ascends when it is reversed. -/
theorem ascends_descending (last : α) (xs : List α) : Ascends lt (last :: (descending lt last xs).1).reverse := by
  unfold Ascends
  rw [List.pairwise_reverse]
  induction xs generalizing last with
  | nil => exact List.pairwise_singleton _ _
  | cons x xs ih =>
    unfold descending
    by_cases hx : lt x last = true
    · rw [if_pos hx]
      refine List.pairwise_cons.2 ⟨?_, ih x⟩
      exact Merging.inOrder_of_head (d := .backward) hlt (ih x) (hlt.asymm hx)
    · rw [if_neg hx]
      exact List.pairwise_singleton _ _

/-- The first run ascends, since a descending one is reversed. -/
theorem ascends_firstRun (x : α) (xs : List α) : Ascends lt (firstRun lt x xs).1 := by
  cases xs with
  | nil => exact List.pairwise_singleton _ _
  | cons y rest =>
    unfold firstRun
    dsimp only
    by_cases hy : lt y x = true
    · rw [if_pos hy]
      have hrun := ascends_descending hlt x (y :: rest)
      unfold descending at hrun
      rw [if_pos hy] at hrun
      exact hrun
    · rw [if_neg hy]
      have hrun := ascends_ascending hlt x (y :: rest)
      unfold ascending at hrun
      rw [if_neg hy] at hrun
      exact hrun

omit hlt in
theorem insertIdx_length_append (front back : List α) (x : α) :
    (front ++ back).insertIdx front.length x = front ++ x :: back := by
  induction front with
  | nil => rfl
  | cons y front ih => rw [List.cons_append, List.length_cons, List.insertIdx_succ_cons, ih, List.cons_append]

/-- A run into which an element is inserted still ascends. -/
theorem ascends_insertSorted {run : List α} (h : Ascends lt run) (x : α) : Ascends lt (insertSorted lt run x) := by
  have hfront := h.front hlt x
  -- the bisection finds the end of the elements that do not follow the new one
  have hplace := bisect_eq hfront .forward (Nat.zero_le _) (List.takeWhile_prefix _).length_le (le_refl run.length)
  have hcut : run.takeWhile (fun y => !lt x y) ++ run.dropWhile (fun y => !lt x y) = run :=
    List.takeWhile_append_dropWhile
  have hinsert : insertSorted lt run x =
      run.takeWhile (fun y => !lt x y) ++ x :: run.dropWhile (fun y => !lt x y) := by
    unfold insertSorted
    rw [hplace, ← insertIdx_length_append, hcut]
  unfold Ascends at h
  rw [← hcut, List.pairwise_append] at h
  rcases h with ⟨hfronts, hbacks, hcross⟩
  have hbehind : ∀ y ∈ run.dropWhile (fun y => !lt x y), lt y x = false := by
    intro y hy
    have hbelow : lt x y = true := by simpa using not_of_mem_dropWhile hfront hy
    exact hlt.asymm hbelow
  rw [hinsert]
  refine List.pairwise_append.2 ⟨hfronts, List.pairwise_cons.2 ⟨hbehind, hbacks⟩, ?_⟩
  intro y hy z hz
  rcases List.mem_cons.1 hz with rfl | hz
  · simpa using List.mem_takeWhile_imp hy
  · exact hcross y hy z hz

/-- Every run ascends. -/
theorem ascends_of_mem_runs {least : Nat} {xs run : List α} (h : run ∈ runs lt least xs) : Ascends lt run := by
  have hfill : ∀ (xs : List α) {run : List α}, Ascends lt run → Ascends lt (xs.foldl (insertSorted lt) run) := by
    intro xs
    induction xs with
    | nil => exact id
    | cons x xs ih =>
      intro run hrun
      exact ih (ascends_insertSorted hlt hrun x)
  fun_induction runs lt least xs with
  | case1 => cases h
  | case2 x xs first missing ih =>
    rcases List.mem_cons.1 h with rfl | h
    · exact hfill _ (ascends_firstRun hlt x xs)
    · exact ih h

end Runs

/-! ## All runs together -/

section Collapsing

variable (hlt : Consistent lt)

include hlt

/-- Settled runs ascend. -/
theorem ascends_settle {depth patience : Nat} {pending : List (Nat × List α)}
    (h : ∀ e ∈ pending, Ascends lt e.2) : ∀ e ∈ (settle lt depth patience pending).1, Ascends lt e.2 := by
  fun_induction settle lt depth patience pending with
  | case1 patience upper right lower left rest hdepth merged patience' heq ih =>
    rw [List.forall_mem_cons, List.forall_mem_cons] at h
    rcases h with ⟨hright, hleft, hrest⟩
    have hmerged := ascends_mergeRuns hlt hleft hright patience
    rw [heq] at hmerged
    exact ih (List.forall_mem_cons.2 ⟨hmerged, hrest⟩)
  | case2 => exact h
  | case3 => exact h

/-- Pending runs ascend. -/
theorem ascends_push {size : Nat} {p : Pending α} {run : List α} (h : ∀ e ∈ p.runs, Ascends lt e.2)
    (hrun : Ascends lt run) : ∀ e ∈ (p.push lt size run).runs, Ascends lt e.2 := by
  unfold Pending.push
  split
  · exact List.forall_mem_singleton.2 hrun
  · exact List.forall_mem_cons.2 ⟨hrun, ascends_settle hlt h⟩

/-- What the runs are merged to ascends. -/
theorem ascends_collapse {patience : Nat} {rs : List (List α)} (h : ∀ run ∈ rs, Ascends lt run) :
    Ascends lt (collapse lt patience rs) := by
  fun_induction collapse lt patience rs with
  | case1 => exact List.Pairwise.nil
  | case2 patience run => exact h run (List.mem_singleton.2 rfl)
  | case3 patience right left =>
    rw [List.forall_mem_cons, List.forall_mem_singleton] at h
    exact ascends_mergeRuns hlt h.2 h.1 patience
  | case4 patience last right left rest _ merged patience' heq ih =>
    simp only [List.forall_mem_cons] at h ih
    rcases h with ⟨hlast, hright, hleft, hrest⟩
    have hmerged := ascends_mergeRuns hlt hleft hright patience
    rw [heq] at hmerged
    exact ih ⟨hlast, hmerged, hrest⟩
  | case5 patience last right left rest _ merged patience' heq ih =>
    simp only [List.forall_mem_cons] at h ih
    rcases h with ⟨hlast, hright, hleft, hrest⟩
    have hmerged := ascends_mergeRuns hlt hright hlast patience
    rw [heq] at hmerged
    exact ih ⟨hmerged, hleft, hrest⟩

/-- Where no comparison contradicts another, the sorted list ascends. -/
theorem ascends_sortBy (xs : List α) : Ascends lt (sortBy lt xs) := by
  have hpush : ∀ (rs : List (List α)) (p : Pending α), (∀ run ∈ rs, Ascends lt run) →
      (∀ e ∈ p.runs, Ascends lt e.2) →
      ∀ e ∈ (rs.foldl (Pending.push lt xs.length) p).runs, Ascends lt e.2 := by
    intro rs
    induction rs with
    | nil => exact fun p _ hp => hp
    | cons run rs ih =>
      intro p hrs hp
      rw [List.forall_mem_cons] at hrs
      exact ih _ hrs.2 (ascends_push hlt hp hrs.1)
  -- all runs ascend, and so does what they are merged to
  have hall := hpush (runs lt (leastRun xs.length) xs) {} (fun run => ascends_of_mem_runs hlt) (by simp)
  unfold sortBy
  apply ascends_collapse hlt
  intro run hrun
  rcases List.mem_map.1 hrun with ⟨e, he, rfl⟩
  exact hall e he

end Collapsing

/-- It is enough that the comparisons between elements of the list do not contradict each other. -/
theorem ascends_sortBy_of_mem {xs : List α} (hasymm : ∀ a ∈ xs, ∀ b ∈ xs, lt a b = true → lt b a = false)
    (htrans : ∀ a ∈ xs, ∀ b ∈ xs, ∀ c ∈ xs, lt b a = false → lt c b = false → lt c a = false) :
    Ascends lt (sortBy lt xs) := by
  have hlt : Consistent fun a b : { x // x ∈ xs } => lt a.1 b.1 := by
    constructor
    · intro a b hab
      exact hasymm a.1 a.2 b.1 b.2 hab
    · intro a b c hab hbc
      exact htrans a.1 a.2 b.1 b.2 c.1 c.2 hab hbc
  have hsorted := ascends_sortBy hlt xs.attach
  have hmap : sortBy lt (xs.attach.map Subtype.val) = (sortBy _ xs.attach).map Subtype.val :=
    sortBy_map (fun _ _ => rfl) xs.attach
  rw [List.attach_map_subtype_val] at hmap
  rw [hmap]
  exact List.pairwise_map.2 hsorted

end VersionAudit.Sorting
