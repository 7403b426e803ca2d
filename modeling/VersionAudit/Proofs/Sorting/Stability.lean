import Mathlib.Data.List.Enum
import VersionAudit.Proofs.Sorting.Ascending

/-!
# Sorting is stable

All that sorting ever asks is whether an element precedes one that came before it. So a comparison may be changed where
it is not asked (`sortBy_congr`), and in particular be made to put equal elements in the order in which they came: what
is sorted by the one is sorted by the other (`pairwise_sortBy`).
-/

namespace VersionAudit.Sorting

variable {α : Type}

/-! ## Searches -/

section Searches

variable {p q : α → Bool} {xs : List α} (h : ∀ x ∈ xs, p x = q x)

include h

/-- A bisection goes the same way for two questions that the elements answer alike. -/
theorem bisect_congr (d : Direction) (low high : Nat) : bisect d p xs low high = bisect d q xs low high := by
  -- relabelling is used with the identity: the elements are those of the list, which answer both questions alike
  have hp := bisect_map (f := Subtype.val) (p := fun x : { x // x ∈ xs } => p x.1) (q := p) (fun _ => rfl) d xs.attach
    low high
  have hq := bisect_map (f := Subtype.val) (p := fun x : { x // x ∈ xs } => p x.1) (q := q)
    (fun x => (h x.1 x.2).symm) d xs.attach low high
  rw [List.attach_map_subtype_val] at hp hq
  exact hp.trans hq.symm

/-- So does a leap. -/
theorem leap_congr (d : Direction) : leap d p xs = leap d q xs := by
  have hp := leap_map (f := Subtype.val) (p := fun x : { x // x ∈ xs } => p x.1) (q := p) (fun _ => rfl) d xs.attach
  have hq := leap_map (f := Subtype.val) (p := fun x : { x // x ∈ xs } => p x.1) (q := q) (fun x => (h x.1 x.2).symm) d
    xs.attach
  rw [List.attach_map_subtype_val] at hp hq
  exact hp.trans hq.symm

end Searches

section Comparisons

variable {lt lt' : α → α → Bool}

/-! ## Merges -/

/-- Two comparisons say the same whenever an element of the second list is compared with one of the first. -/
def Agree (lt lt' : α → α → Bool) (left right : List α) : Prop :=
  ∀ a ∈ left, ∀ b ∈ right, lt b a = lt' b a

theorem Agree.mono {left right left' right' : List α} (h : Agree lt lt' left right) (hleft : left' ⊆ left)
    (hright : right' ⊆ right) : Agree lt lt' left' right' :=
  fun a ha b hb => h a (hleft ha) b (hright hb)

theorem takesRight_congr {a b : α} (h : lt b a = lt' b a) (d : Direction) :
    d.takesRight lt a b = d.takesRight lt' a b := by
  cases d <;> simp only [Direction.takesRight, h]

namespace Merging

theorem left_takeLeft (d : Direction) (count : Nat) (m : Merging α) : (m.takeLeft d count).left ⊆ m.left := by
  unfold takeLeft
  split
  · exact fun _ hx => hx
  · exact List.drop_subset count m.left

theorem right_takeLeft (d : Direction) (count : Nat) (m : Merging α) : (m.takeLeft d count).right = m.right := by
  unfold takeLeft
  split <;> rfl

theorem left_takeRight (d : Direction) (count : Nat) (m : Merging α) : (m.takeRight d count).left = m.left := by
  unfold takeRight
  split <;> rfl

theorem right_takeRight (d : Direction) (count : Nat) (m : Merging α) : (m.takeRight d count).right ⊆ m.right := by
  unfold takeRight
  split
  · exact fun _ hx => hx
  · exact List.drop_subset count m.right

variable {m : Merging α} (h : Agree lt lt' m.left m.right)

include h

theorem agree_takeLeft (d : Direction) (count : Nat) :
    Agree lt lt' (m.takeLeft d count).left (m.takeLeft d count).right :=
  h.mono (left_takeLeft d count m) (by rw [right_takeLeft]; exact fun _ hx => hx)

theorem agree_takeRight (d : Direction) (count : Nat) :
    Agree lt lt' (m.takeRight d count).left (m.takeRight d count).right :=
  h.mono (by rw [left_takeRight]; exact fun _ hx => hx) (right_takeRight d count m)

theorem rightIsNext_congr (d : Direction) : m.rightIsNext d lt = m.rightIsNext d lt' := by
  rcases m with ⟨_ | ⟨a, left⟩, _ | ⟨b, right⟩, taken⟩
  · rfl
  · rfl
  · rfl
  · exact takesRight_congr (h a (List.mem_cons_self ..) b (List.mem_cons_self ..)) d

theorem leftStretch_congr (d : Direction) : m.leftStretch d lt = m.leftStretch d lt' := by
  rcases m with ⟨left, _ | ⟨b, right⟩, taken⟩
  · rfl
  · exact leap_congr (fun a ha => by rw [takesRight_congr (h a ha b (List.mem_cons_self ..))]) d

theorem rightStretch_congr (d : Direction) : m.rightStretch d lt = m.rightStretch d lt' := by
  rcases m with ⟨_ | ⟨a, left⟩, right, taken⟩
  · rfl
  · exact leap_congr (fun b hb => takesRight_congr (h a (List.mem_cons_self ..) b hb) d) d

/-- A galloping round ends the same way. -/
theorem round_congr (d : Direction) : m.round d lt = m.round d lt' := by
  unfold round
  rw [leftStretch_congr h]
  dsimp only
  rw [rightStretch_congr (agree_takeRight (agree_takeLeft h d _) d 1)]

theorem agree_round (d : Direction) : Agree lt lt' (m.round d lt).1.left (m.round d lt).1.right :=
  agree_takeLeft (agree_takeRight (agree_takeRight (agree_takeLeft h d _) d 1) d _) d 1

/-- A merge runs the same way to its end, whatever its pace. -/
theorem run_congr (d : Direction) (pace : Pace) (patience : Nat) :
    run d lt pace patience m = run d lt' pace patience m := by
  -- every turn leaves parts of both lists, so that the agreement passes on to the next one
  fun_induction run d lt pace patience m with
  | case1 pace patience m hfinished => rw [run.eq_def d lt', if_pos hfinished]
  | case2 patience m hfinished left right hnext ih =>
    rw [run.eq_def d lt', if_neg hfinished]
    simp only [← rightIsNext_congr h, if_pos hnext]
    simpa only [dite_eq_ite] using ih (agree_takeRight h d 1)
  | case3 patience m hfinished left right hnext ih =>
    rw [run.eq_def d lt', if_neg hfinished]
    simp only [← rightIsNext_congr h, if_neg hnext]
    simpa only [dite_eq_ite] using ih (agree_takeLeft h d 1)
  | case4 patience m hfinished next hnext =>
    rw [run.eq_def d lt', if_neg hfinished]
    simp only [← round_congr h]
    rw [if_pos hnext]
  | case5 patience m hfinished next hnext hlong ih =>
    rw [run.eq_def d lt', if_neg hfinished]
    simp only [← round_congr h]
    rw [if_neg hnext, if_pos hlong, ih (agree_round h d)]
  | case6 patience m hfinished next hnext hshort ih =>
    rw [run.eq_def d lt', if_neg hfinished]
    simp only [← round_congr h]
    rw [if_neg hnext, if_neg hshort, ih (agree_round h d)]

end Merging

/-- Two lists merge alike if their elements are compared alike. -/
theorem merge_congr {left right : List α} (h : Agree lt lt' left right) (d : Direction) (patience : Nat) :
    merge d lt left right patience = merge d lt' left right patience := by
  cases d with
  | forward =>
    have hstart := Merging.agree_takeRight (m := ⟨left, right, []⟩) h .forward 1
    simp only [merge, Merging.run_congr hstart]
  -- from the back the two lists are merged reversed, with the same elements
  | backward =>
    have hreverse : Agree lt lt' left.reverse right.reverse :=
      h.mono (fun _ => List.mem_reverse.1) fun _ => List.mem_reverse.1
    have hstart := Merging.agree_takeLeft (m := ⟨left.reverse, right.reverse, []⟩) hreverse .backward 1
    simp only [merge, Merging.run_congr hstart]

/-- So do two neighbouring runs, of which the ends that are in place already are left out. -/
theorem mergeRuns_congr {left right : List α} (h : Agree lt lt' left right) (patience : Nat) :
    mergeRuns lt left right patience = mergeRuns lt' left right patience := by
  cases right with
  | nil => rfl
  | cons b rest =>
    have hkept : leap .forward (fun a => !lt b a) left = leap .forward (fun a => !lt' b a) left :=
      leap_congr (fun a ha => by rw [h a ha b (List.mem_cons_self ..)]) _
    simp only [mergeRuns, hkept]
    -- nothing is merged if all of the left run is in place
    cases hlast : (left.drop (leap .forward (fun a => !lt' b a) left)).getLast? with
    | none => rfl
    | some a =>
      have ha : a ∈ left := List.mem_of_mem_drop (List.mem_of_getLast? hlast)
      have hcount : leap .backward (fun b => !lt b a) (b :: rest).reverse =
          leap .backward (fun b => !lt' b a) (b :: rest).reverse :=
        leap_congr (fun b' hb' => by rw [h a ha b' (List.mem_reverse.1 hb')]) _
      dsimp only
      rw [hcount, merge_congr (h.mono (List.drop_subset _ _) (List.take_subset _ _))]

/-! ## Runs -/

/-- Two comparisons say the same whenever an element of the list is compared with one before it. -/
def Alike (lt lt' : α → α → Bool) (xs : List α) : Prop :=
  xs.Pairwise fun a b => lt b a = lt' b a

theorem alike_append {xs ys : List α} :
    Alike lt lt' (xs ++ ys) ↔ Alike lt lt' xs ∧ Alike lt lt' ys ∧ Agree lt lt' xs ys :=
  List.pairwise_append

/-- A run goes on ascending equally far. -/
theorem ascending_congr {last : α} {xs : List α} (h : Alike lt lt' (last :: xs)) :
    ascending lt last xs = ascending lt' last xs := by
  induction xs generalizing last with
  | nil => rfl
  | cons x xs ih =>
    obtain ⟨hlast, hrest⟩ := List.pairwise_cons.1 h
    unfold ascending
    rw [hlast x (List.mem_cons_self ..), ih hrest]

/-- A run goes on descending equally far. -/
theorem descending_congr {last : α} {xs : List α} (h : Alike lt lt' (last :: xs)) :
    descending lt last xs = descending lt' last xs := by
  induction xs generalizing last with
  | nil => rfl
  | cons x xs ih =>
    obtain ⟨hlast, hrest⟩ := List.pairwise_cons.1 h
    unfold descending
    rw [hlast x (List.mem_cons_self ..), ih hrest]

/-- The first run is the same. -/
theorem firstRun_congr {x : α} {xs : List α} (h : Alike lt lt' (x :: xs)) : firstRun lt x xs = firstRun lt' x xs := by
  cases xs with
  | nil => rfl
  | cons y rest =>
    obtain ⟨hx, hrest⟩ := List.pairwise_cons.1 h
    unfold firstRun
    dsimp only
    rw [hx y (List.mem_cons_self ..), ascending_congr hrest, descending_congr hrest]

/-- The first run is made of the front of the list. -/
theorem exists_front_firstRun (lt : α → α → Bool) (x : α) (xs : List α) :
    ∃ front, front ++ (firstRun lt x xs).2 = x :: xs ∧ (firstRun lt x xs).1.Perm front := by
  cases xs with
  | nil => exact ⟨[x], rfl, .refl _⟩
  | cons y rest =>
    unfold firstRun
    dsimp only
    split
    · exact ⟨_, by rw [List.cons_append, List.cons_append, append_descending], List.reverse_perm _⟩
    · exact ⟨_, by rw [List.cons_append, List.cons_append, append_ascending], .refl _⟩

/-- An element is inserted at the same place if it is compared alike with all of the run. -/
theorem insertSorted_congr {run : List α} {x : α} (h : ∀ y ∈ run, lt x y = lt' x y) :
    insertSorted lt run x = insertSorted lt' run x := by
  unfold insertSorted
  rw [bisect_congr fun y hy => by rw [h y hy]]

/-- A run is filled up in the same way. -/
theorem foldl_insertSorted_congr {run xs : List α} (hrun : Agree lt lt' run xs) (hxs : Alike lt lt' xs) :
    xs.foldl (insertSorted lt) run = xs.foldl (insertSorted lt') run := by
  induction xs generalizing run with
  | nil => rfl
  | cons x xs ih =>
    obtain ⟨hx, hrest⟩ := List.pairwise_cons.1 hxs
    rw [List.foldl_cons, List.foldl_cons, insertSorted_congr fun y hy => hrun y hy x (List.mem_cons_self ..)]
    refine ih ?_ hrest
    -- the run has grown by one element, which the later ones are compared with as well
    intro a ha b hb
    have hmem : a ∈ (insertSorted lt' run x : Multiset α) := ha
    rw [coe_insertSorted, Multiset.mem_cons] at hmem
    rcases hmem with rfl | hmem
    · exact hx b hb
    · exact hrun a hmem b (List.mem_cons_of_mem _ hb)

/-- Runs of which each one has the elements behind those of the runs after it in the list. -/
def Behind (lt lt' : α → α → Bool) (rs : List (List α)) : Prop :=
  rs.Pairwise fun right left => Agree lt lt' left right

/-- Both comparisons cut a list into the same runs, which lie one behind the other. -/
theorem runs_congr (least : Nat) {xs : List α} (h : Alike lt lt' xs) :
    runs lt least xs = runs lt' least xs ∧ Behind lt lt' (runs lt least xs).reverse := by
  fun_induction runs lt least xs with
  | case1 => exact ⟨by rw [runs], List.Pairwise.nil⟩
  | case2 x xs first missing ih =>
    obtain ⟨front, hfront, hperm⟩ := exists_front_firstRun lt x xs
    -- the list is the front of which the run is made, what fills it up, and the rest
    have hcut := h
    rw [← hfront, alike_append] at hcut
    obtain ⟨-, hrest, hcross⟩ := hcut
    have hfill := hrest
    rw [← List.take_append_drop missing first.2, alike_append] at hfill
    obtain ⟨htake, hdrop, hbetween⟩ := hfill
    have hrun : Agree lt lt' first.1 (first.2.take missing) :=
      hcross.mono (fun _ => hperm.mem_iff.1) (List.take_subset _ _)
    obtain ⟨heq, hbehind⟩ := ih hdrop
    constructor
    · rw [runs.eq_def lt']
      dsimp only
      rw [← firstRun_congr h, ← foldl_insertSorted_congr hrun htake, ← heq]
    · rw [List.reverse_cons]
      refine List.pairwise_append.2 ⟨hbehind, List.pairwise_singleton .., ?_⟩
      intro later hlater run hrun a ha b hb
      rw [List.mem_singleton.1 hrun] at ha
      have hmem : a ∈ (((first.2.take missing).foldl (insertSorted lt) first.1 : List α) : Multiset α) := ha
      rw [coe_foldl_insertSorted, Multiset.mem_add] at hmem
      -- what the later runs are made of lies behind what the first one is made of
      have hlate : b ∈ first.2.drop missing := by
        have hflat : b ∈ ((runs lt least (first.2.drop missing)).flatten : Multiset α) :=
          List.mem_flatten.2 ⟨later, List.mem_reverse.1 hlater, hb⟩
        rw [coe_runs] at hflat
        exact hflat
      rcases hmem with hmem | hmem
      · exact hcross a (hperm.mem_iff.1 hmem) b (List.mem_of_mem_drop hlate)
      · exact hbetween a hmem b hlate

/-! ## All runs together -/

theorem mem_mergeRuns {left right : List α} {patience : Nat} {x : α} :
    x ∈ (mergeRuns lt left right patience).1 ↔ x ∈ left ∨ x ∈ right := by
  have hcontent := coe_mergeRuns lt left right patience
  rw [Multiset.coe_add, Multiset.coe_eq_coe] at hcontent
  rw [hcontent.mem_iff, List.mem_append]

/-- Two neighbouring runs may be merged. -/
theorem Behind.merge {right left : List α} {rest : List (List α)} (h : Behind lt lt' (right :: left :: rest))
    (patience : Nat) : Behind lt lt' ((mergeRuns lt left right patience).1 :: rest) := by
  obtain ⟨hright, hlower⟩ := List.pairwise_cons.1 h
  obtain ⟨hleft, hrest⟩ := List.pairwise_cons.1 hlower
  refine List.pairwise_cons.2 ⟨?_, hrest⟩
  intro run hrun a ha b hb
  rcases mem_mergeRuns.1 hb with hb | hb
  · exact hleft run hrun a ha b hb
  · exact hright run (List.mem_cons_of_mem _ hrun) a ha b hb

theorem Behind.agree {right left : List α} {rest : List (List α)} (h : Behind lt lt' (right :: left :: rest)) :
    Agree lt lt' left right :=
  (List.pairwise_cons.1 h).1 left (List.mem_cons_self ..)

/-- The pending runs are merged in the same way, and stay one behind the other. -/
theorem settle_congr {pending : List (Nat × List α)} (h : Behind lt lt' (pending.map (·.2))) (depth patience : Nat) :
    settle lt depth patience pending = settle lt' depth patience pending ∧
      Behind lt lt' ((settle lt depth patience pending).1.map (·.2)) := by
  fun_induction settle lt depth patience pending with
  | case1 patience upper right lower left rest hdepth merged patience' heq ih =>
    have hmerged := h.merge patience
    rw [heq] at hmerged
    rw [settle.eq_def lt']
    dsimp only
    rw [if_pos hdepth, ← mergeRuns_congr h.agree, heq]
    exact ih hmerged
  | case2 patience upper right lower left rest hdepth =>
    rw [settle.eq_def lt']
    dsimp only
    rw [if_neg hdepth]
    exact ⟨rfl, h⟩
  | case3 patience pending hshort =>
    rcases pending with _ | ⟨⟨upper, right⟩, _ | ⟨⟨lower, left⟩, rest⟩⟩
    · exact ⟨by simp only [settle], h⟩
    · exact ⟨by simp only [settle], h⟩
    · exact absurd rfl (hshort upper right lower left rest)

/-- The earlier runs may be replaced by others with the same elements. -/
theorem Behind.replace (later : List (List α)) {earlier earlier' : List (List α)}
    (h : Behind lt lt' (later ++ earlier)) (hearlier : Behind lt lt' earlier') (hmem : ∀ x ∈ earlier'.flatten, x ∈ earlier.flatten) :
    Behind lt lt' (later ++ earlier') := by
  obtain ⟨hlater, -, hcross⟩ := List.pairwise_append.1 h
  refine List.pairwise_append.2 ⟨hlater, hearlier, ?_⟩
  intro right hright left hleft a ha b hb
  obtain ⟨left', hleft', ha'⟩ := List.mem_flatten.1 (hmem a (List.mem_flatten.2 ⟨left, hleft, ha⟩))
  exact hcross right hright left' hleft' a ha' b hb

/-- One more run is handled in the same way. -/
theorem push_congr {p : Pending α} {run : List α} (h : Behind lt lt' (run :: p.runs.map (·.2))) (size : Nat) :
    p.push lt size run = p.push lt' size run ∧ Behind lt lt' ((p.push lt size run).runs.map (·.2)) := by
  obtain ⟨-, hruns⟩ := List.pairwise_cons.1 h
  have hsettle := settle_congr hruns
  unfold Pending.push
  split
  · exact ⟨rfl, List.pairwise_singleton ..⟩
  · rename_i depth last rest hp
    have hcontent := pendingContent_settle lt (boundaryDepth size (2 * p.size - last.length) (2 * p.size + run.length))
      p.patience p.runs
    obtain ⟨heq, hbehind⟩ :=
      hsettle (boundaryDepth size (2 * p.size - last.length) (2 * p.size + run.length)) p.patience
    dsimp only
    rw [← heq]
    refine ⟨rfl, ?_⟩
    rw [List.map_cons]
    -- the settled runs have the elements of the pending ones, which the new run lies behind
    refine Behind.replace [run] h hbehind fun x hx => ?_
    have hmem : x ∈ pendingContent (settle lt _ p.patience p.runs).1 := hx
    rw [hcontent] at hmem
    exact hmem

/-- All runs are handled in the same way. -/
theorem foldl_push_congr (size : Nat) {rs : List (List α)} {p : Pending α}
    (h : Behind lt lt' (rs.reverse ++ p.runs.map (·.2))) :
    rs.foldl (Pending.push lt size) p = rs.foldl (Pending.push lt' size) p ∧
      Behind lt lt' ((rs.foldl (Pending.push lt size) p).runs.map (·.2)) := by
  induction rs generalizing p with
  | nil => exact ⟨rfl, h⟩
  | cons run rs ih =>
    rw [List.reverse_cons, List.append_assoc, List.singleton_append] at h
    obtain ⟨heq, hbehind⟩ := push_congr (List.pairwise_append.1 h).2.1 size
    rw [List.foldl_cons, List.foldl_cons, ← heq]
    -- the run just pushed is among the pending ones now, and the later runs lie behind all of them
    refine ih (h.replace _ hbehind fun x hx => ?_)
    have hmem : x ∈ pendingContent (p.push lt size run).runs := hx
    rw [pendingContent_push, Multiset.mem_add] at hmem
    rw [List.flatten_cons, List.mem_append]
    exact hmem.symm

/-- The runs that are left are merged in the same way. -/
theorem collapse_congr (patience : Nat) {rs : List (List α)} (h : Behind lt lt' rs) :
    collapse lt patience rs = collapse lt' patience rs := by
  fun_induction collapse lt patience rs with
  | case1 patience => simp only [collapse]
  | case2 patience run => simp only [collapse]
  | case3 patience right left => simp only [collapse, mergeRuns_congr h.agree]
  | case4 patience last right left rest hlength merged patience' heq ih =>
    obtain ⟨hlast, hearlier⟩ := List.pairwise_cons.1 h
    have hmerged := Behind.merge hearlier patience
    rw [heq] at hmerged
    rw [collapse.eq_def lt']
    dsimp only
    rw [if_pos hlength, ← mergeRuns_congr (Behind.agree hearlier), heq]
    -- the two older runs are merged below the last one
    refine ih (Behind.replace [last] h hmerged fun x hx => ?_)
    have hmem : x ∈ (mergeRuns lt left right patience).1 ↔ x ∈ left ∨ x ∈ right := mem_mergeRuns
    rw [heq] at hmem
    rw [List.flatten_cons, List.mem_append, hmem] at hx
    rw [List.flatten_cons, List.flatten_cons, List.mem_append, List.mem_append, ← or_assoc, or_comm (a := x ∈ right)]
    exact hx
  | case5 patience last right left rest hlength merged patience' heq ih =>
    rw [collapse.eq_def lt']
    dsimp only
    rw [if_neg hlength, ← mergeRuns_congr h.agree, heq]
    have hmerged := h.merge patience
    rw [heq] at hmerged
    exact ih hmerged

/-- Two comparisons that say the same whenever an element is compared with one that came before it sort alike. -/
theorem sortBy_congr {xs : List α} (h : Alike lt lt' xs) : sortBy lt xs = sortBy lt' xs := by
  obtain ⟨hruns, hbehind⟩ := runs_congr (leastRun xs.length) h
  obtain ⟨hpush, hpending⟩ := foldl_push_congr xs.length (p := {}) (by simpa using hbehind)
  -- the three stages of sorting one after the other
  unfold sortBy
  dsimp only
  rw [collapse_congr _ hpending, hpush, hruns]

end Comparisons

/-! ## Equal elements -/

section Places

variable (lt : α → α → Bool)

/-- Elements with their places in a list are compared first by themselves, then by their places. -/
def beforeInPlace (x y : α × Nat) : Bool :=
  lt x.1 y.1 || (!lt y.1 x.1 && x.2 < y.2)

variable {lt}

/-- An element is not behind another one if it does not follow it, nor has a later place when they are equal. -/
theorem beforeInPlace_eq_false_iff {x y : α × Nat} :
    beforeInPlace lt x y = false ↔ lt x.1 y.1 = false ∧ (lt y.1 x.1 = false → y.2 ≤ x.2) := by
  unfold beforeInPlace
  simp only [Bool.or_eq_false_iff, Bool.and_eq_false_iff, Bool.not_eq_false', decide_eq_false_iff_not, Nat.not_lt]
  refine and_congr_right fun _ => ?_
  rw [← Bool.not_eq_true, or_iff_not_imp_left]

/-- With the places, a consistent comparison stays consistent. -/
theorem Consistent.inPlace (h : Consistent lt) : Consistent (beforeInPlace lt) where
  asymm := by
    intro x y hxy
    unfold beforeInPlace at hxy
    rw [beforeInPlace_eq_false_iff]
    simp only [Bool.or_eq_true, Bool.and_eq_true, Bool.not_eq_true', decide_eq_true_eq] at hxy
    rcases hxy with hxy | ⟨hyx, hplace⟩
    · exact ⟨h.asymm hxy, fun hnot => by rw [hxy] at hnot; cases hnot⟩
    · exact ⟨hyx, fun _ => hplace.le⟩
  trans := by
    intro x y z hxy hyz
    rw [beforeInPlace_eq_false_iff] at hxy hyz ⊢
    refine ⟨h.trans hxy.1 hyz.1, fun hxz => ?_⟩
    -- what neither precedes nor follows the last one is equal to the middle one as well
    have hyx : lt x.1 y.1 = false := h.trans hyz.1 hxz
    have hzy : lt y.1 z.1 = false := h.trans hxz hxy.1
    exact (hxy.2 hyx).trans (hyz.2 hzy)

theorem pairwise_zipIdx (xs : List α) : xs.zipIdx.Pairwise fun x y => x.2 < y.2 := by
  rw [List.pairwise_iff_getElem]
  intro i j hi hj hij
  simpa using hij

/-- The sorted list ascends, and of two elements that do not precede each other the one that came first stands
first. -/
theorem pairwise_sortBy (hlt : Consistent lt) {R : α → α → Prop} {xs : List α} (hR : xs.Pairwise R) :
    (sortBy lt xs).Pairwise fun x y => lt y x = false ∧ (lt x y = false → R x y) := by
  -- an element is only compared with one before it, so that its place never decides
  have halike : Alike (fun x y : α × Nat => lt x.1 y.1) (beforeInPlace lt) xs.zipIdx := by
    refine (pairwise_zipIdx xs).imp fun {x y} hxy => ?_
    simp [beforeInPlace, hxy.le]
  -- so sorting with the places and forgetting them afterwards is sorting
  have hplaces : sortBy lt xs = (sortBy (beforeInPlace lt) xs.zipIdx).map Prod.fst := by
    have hmap : sortBy lt (xs.zipIdx.map Prod.fst) = (sortBy (fun x y => lt x.1 y.1) xs.zipIdx).map Prod.fst :=
      sortBy_map (fun _ _ => rfl) xs.zipIdx
    rw [← sortBy_congr halike, ← hmap, List.zipIdx_map_fst]
  have hdiffer : (sortBy (beforeInPlace lt) xs.zipIdx).Pairwise fun x y => x.2 ≠ y.2 :=
    ((sortBy_perm _ _).pairwise_iff fun h => h.symm).2 ((pairwise_zipIdx xs).imp fun hxy => hxy.ne)
  rw [hplaces, List.pairwise_map]
  refine ((ascends_sortBy hlt.inPlace xs.zipIdx).and hdiffer).imp_of_mem ?_
  rintro ⟨x, i⟩ ⟨y, j⟩ hx hy ⟨hascends, hne⟩
  obtain ⟨hyx, hplace⟩ := beforeInPlace_eq_false_iff.1 hascends
  -- equal elements ascend by their places, and the places are those of the given list
  refine ⟨hyx, fun hxy => ?_⟩
  have hij : i < j := lt_of_le_of_ne (hplace hxy) hne
  rw [mem_sortBy, List.mem_zipIdx_iff_getElem?] at hx hy
  dsimp only at hx hy hij ⊢
  obtain ⟨hi, rfl⟩ := List.getElem?_eq_some_iff.1 hx
  obtain ⟨hj, rfl⟩ := List.getElem?_eq_some_iff.1 hy
  exact List.pairwise_iff_getElem.1 hR i j hi hj hij

end Places

end VersionAudit.Sorting
