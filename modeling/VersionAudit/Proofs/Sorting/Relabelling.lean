import Mathlib.Data.List.InsertIdx
import VersionAudit.Proofs.Sorting.Content

/-!
# Sorting looks at comparisons only

Elements may be relabelled before or after sorting: if a relabelling keeps all comparisons, the sorted list of the
new elements is the relabelled sorted list (`sortBy_map`). This holds whether or not the comparison is transitive,
since it holds of every search, every run and every merge on the way.
-/

namespace VersionAudit.Sorting

variable {α β : Type} {f : α → β}

/-! ## Searches -/

section Searches

variable {p : α → Bool} {q : β → Bool} (hq : ∀ x, q (f x) = p x)

include hq

/-- A bisection goes the same way among relabelled elements. -/
theorem bisect_map (d : Direction) (xs : List α) (low high : Nat) :
    bisect d q (xs.map f) low high = bisect d p xs low high := by
  -- the case split of the search itself: past the end, or what the element in the middle answers
  fun_induction bisect d p xs low high with
  | case1 low high hlt x hx hpx ih =>
    rw [bisect, if_pos hlt, List.getElem?_map, hx]
    simp only [Option.map_some, hq, hpx, if_true, ih]
  | case2 low high hlt x hx hpx ih =>
    rw [bisect, if_pos hlt, List.getElem?_map, hx]
    simp only [Option.map_some, hq, hpx, Bool.false_eq_true, if_false, ih]
  | case3 low high hlt hx =>
    rw [bisect, if_pos hlt, List.getElem?_map, hx]
    rfl
  | case4 low high hlt =>
    rw [bisect, if_neg hlt]

/-- The growing strides of a search end at the same places. -/
theorem stride_map (xs : List α) (low next : Nat) : stride q (xs.map f) low next = stride p xs low next := by
  -- the element at a place of the new list is that of the old one, relabelled
  have hplace : ∀ (next : Nat) (x : α), xs[next]? = some x → (xs.map f)[next]? = some (f x) := by
    intro next x hx
    rw [List.getElem?_map, hx, Option.map_some]
  fun_induction stride p xs low next with
  | case1 low next x hx hpx ih =>
    rw [stride.eq_def]
    split
    · rename_i y hy
      obtain rfl := Option.some.inj ((hplace next x hx).symm.trans hy)
      rw [hq, if_pos hpx, ih]
    · rename_i hnone
      rw [hplace next x hx] at hnone
      cases hnone
  | case2 low next x hx hpx =>
    rw [stride.eq_def]
    split
    · rename_i y hy
      obtain rfl := Option.some.inj ((hplace next x hx).symm.trans hy)
      rw [hq, if_neg hpx]
    · rename_i hnone
      rw [hplace next x hx] at hnone
      cases hnone
  | case3 low next hx =>
    rw [stride.eq_def]
    split
    · rename_i y hy
      rw [List.getElem?_map, hx] at hy
      cases hy
    · rw [List.length_map]

/-- A leap, which is strides and a bisection, ends at the same place. -/
theorem leap_map (d : Direction) (xs : List α) : leap d q (xs.map f) = leap d p xs := by
  unfold leap
  rw [stride_map hq]
  dsimp only
  rw [bisect_map hq]

end Searches

section Comparisons

variable {lt : α → α → Bool} {lt' : β → β → Bool} (h : ∀ x y, lt' (f x) (f y) = lt x y)

/-! ## Merges -/

namespace Merging

/-- A merge of relabelled elements. -/
def map (f : α → β) (m : Merging α) : Merging β :=
  { left := m.left.map f, right := m.right.map f, taken := m.taken.map f }

theorem isFinished_map (d : Direction) (m : Merging α) : (m.map f).isFinished d = m.isFinished d := by
  cases d <;> simp only [isFinished, map, ← List.map_drop, List.isEmpty_map]

theorem result_map (d : Direction) (m : Merging α) : (m.map f).result d = (m.result d).map f := by
  cases d <;> simp [result, map]

theorem takeLeft_map (d : Direction) (count : Nat) (m : Merging α) :
    (m.map f).takeLeft d count = (m.takeLeft d count).map f := by
  unfold takeLeft
  rw [isFinished_map]
  split
  · rfl
  · simp [map]

theorem takeRight_map (d : Direction) (count : Nat) (m : Merging α) :
    (m.map f).takeRight d count = (m.takeRight d count).map f := by
  unfold takeRight
  rw [isFinished_map]
  split
  · rfl
  · simp [map]

end Merging

include h

theorem takesRight_map (d : Direction) (a b : α) : d.takesRight lt' (f a) (f b) = d.takesRight lt a b := by
  cases d <;> simp only [Direction.takesRight, h]

namespace Merging

/-- The next element comes from the same side. -/
theorem rightIsNext_map (d : Direction) (m : Merging α) : (m.map f).rightIsNext d lt' = m.rightIsNext d lt := by
  rcases m with ⟨_ | ⟨a, left⟩, _ | ⟨b, right⟩, taken⟩
  · rfl
  · rfl
  · rfl
  · exact takesRight_map h d a b

theorem leftStretch_map (d : Direction) (m : Merging α) : (m.map f).leftStretch d lt' = m.leftStretch d lt := by
  rcases m with ⟨left, _ | ⟨b, right⟩, taken⟩
  · rfl
  · exact leap_map (fun a => by rw [takesRight_map h]) d left

theorem rightStretch_map (d : Direction) (m : Merging α) : (m.map f).rightStretch d lt' = m.rightStretch d lt := by
  rcases m with ⟨_ | ⟨a, left⟩, right, taken⟩
  · rfl
  · exact leap_map (fun b => takesRight_map h d a b) d right

theorem round_map (d : Direction) (m : Merging α) :
    (m.map f).round d lt' = ((m.round d lt).1.map f, (m.round d lt).2) := by
  simp only [round, leftStretch_map h, rightStretch_map h, takeLeft_map, takeRight_map]

/-- A relabelled merge runs as the merge does, and keeps the same patience. -/
theorem run_map (d : Direction) (pace : Pace) (patience : Nat) (m : Merging α) :
    run d lt' pace patience (m.map f) =
      ((run d lt pace patience m).1.map f, (run d lt pace patience m).2) := by
  -- one case for each way a turn can go: finished, one element from a side, or a galloping round
  fun_induction run d lt pace patience m with
  | case1 pace patience m hfinished =>
    rw [run.eq_def d lt', if_pos (by rwa [isFinished_map])]
  | case2 patience m hfinished left right hnext ih =>
    rw [run.eq_def d lt', if_neg (by rwa [isFinished_map])]
    simp only [rightIsNext_map h, if_pos hnext, takeRight_map]
    simpa only [dite_eq_ite] using ih
  | case3 patience m hfinished left right hnext ih =>
    rw [run.eq_def d lt', if_neg (by rwa [isFinished_map])]
    simp only [rightIsNext_map h, if_neg hnext, takeLeft_map]
    simpa only [dite_eq_ite] using ih
  | case4 patience m hfinished next hnext =>
    rw [run.eq_def d lt', if_neg (by rwa [isFinished_map])]
    simp only [round_map h, isFinished_map]
    rw [if_pos hnext]
  | case5 patience m hfinished next hnext hlong ih =>
    rw [run.eq_def d lt', if_neg (by rwa [isFinished_map])]
    simp only [round_map h, isFinished_map]
    rw [if_neg hnext, if_pos hlong, ih]
  | case6 patience m hfinished next hnext hshort ih =>
    rw [run.eq_def d lt', if_neg (by rwa [isFinished_map])]
    simp only [round_map h, isFinished_map]
    rw [if_neg hnext, if_neg hshort, ih]

end Merging

/-- Two relabelled lists merge to the relabelled merged list. -/
theorem merge_map (d : Direction) (left right : List α) (patience : Nat) :
    merge d lt' (left.map f) (right.map f) patience =
      ((merge d lt left right patience).1.map f, (merge d lt left right patience).2) := by
  -- the start of the merge is relabelled as well
  have hstart : ∀ left right : List α, (⟨left.map f, right.map f, []⟩ : Merging β) = Merging.map f ⟨left, right, []⟩ :=
    fun _ _ => rfl
  cases d with
  | forward =>
    simp only [merge, hstart, Merging.takeRight_map, Merging.run_map h, Merging.result_map]
  | backward =>
    simp only [merge, ← List.map_reverse, hstart, Merging.takeLeft_map, Merging.run_map h, Merging.result_map]

/-- Two relabelled runs merge to the relabelled merged run. -/
theorem mergeRuns_map (left right : List α) (patience : Nat) :
    mergeRuns lt' (left.map f) (right.map f) patience =
      ((mergeRuns lt left right patience).1.map f, (mergeRuns lt left right patience).2) := by
  cases right with
  | nil => rfl
  | cons b rest =>
    have hkept : leap .forward (fun a => !lt' (f b) a) (left.map f) = leap .forward (fun a => !lt b a) left :=
      leap_map (fun a => by rw [h]) _ _
    have hcount : ∀ a, leap .backward (fun b => !lt' b (f a)) ((b :: rest).map f).reverse =
        leap .backward (fun b => !lt b a) (b :: rest).reverse := by
      intro a
      rw [← List.map_reverse]
      exact leap_map (fun b => by rw [h]) _ _
    simp only [mergeRuns, List.map_cons]
    rw [hkept, ← List.map_drop, List.getLast?_map]
    -- the count of elements behind the last one of the left run is only asked for if there is one
    cases (left.drop (leap .forward (fun a => !lt b a) left)).getLast? with
    | none => simp
    | some a =>
      simp only [Option.map_some]
      rw [← List.map_cons, hcount, List.length_map, ← List.map_take, ← List.map_drop, ← List.map_take]
      simp only [List.isEmpty_map, List.length_map, merge_map h]
      split
      · simp
      · simp

/-! ## Runs -/

/-- The ascending part at the front has the same length after relabelling. -/
theorem ascending_map (last : α) (xs : List α) :
    ascending lt' (f last) (xs.map f) = ((ascending lt last xs).1.map f, (ascending lt last xs).2.map f) := by
  induction xs generalizing last with
  | nil => rfl
  | cons x xs ih =>
    simp only [List.map_cons, ascending, h, ih]
    split <;> rfl

/-- So has the descending part. -/
theorem descending_map (last : α) (xs : List α) :
    descending lt' (f last) (xs.map f) = ((descending lt last xs).1.map f, (descending lt last xs).2.map f) := by
  induction xs generalizing last with
  | nil => rfl
  | cons x xs ih =>
    simp only [List.map_cons, descending, h, ih]
    split <;> rfl

/-- The first run of a relabelled list is the relabelled first run. -/
theorem firstRun_map (x : α) (xs : List α) :
    firstRun lt' (f x) (xs.map f) = ((firstRun lt x xs).1.map f, (firstRun lt x xs).2.map f) := by
  cases xs with
  | nil => rfl
  | cons y rest =>
    simp only [List.map_cons, firstRun, h, descending_map h, ascending_map h]
    split <;> simp

theorem insertSorted_map (run : List α) (x : α) :
    insertSorted lt' (run.map f) (f x) = (insertSorted lt run x).map f := by
  unfold insertSorted
  rw [bisect_map (p := fun y => !lt x y) (fun y => by rw [h]), List.length_map, List.map_insertIdx]

theorem foldl_insertSorted_map (run xs : List α) :
    (xs.map f).foldl (insertSorted lt') (run.map f) = (xs.foldl (insertSorted lt) run).map f := by
  induction xs generalizing run with
  | nil => rfl
  | cons x xs ih => rw [List.map_cons, List.foldl_cons, List.foldl_cons, insertSorted_map h, ih]

/-- A relabelled list is cut into the relabelled runs. -/
theorem runs_map (least : Nat) (xs : List α) :
    runs lt' least (xs.map f) = (runs lt least xs).map (List.map f) := by
  fun_induction runs lt least xs with
  | case1 =>
    rw [List.map_nil, runs, List.map_nil]
  | case2 x xs first missing ih =>
    rw [List.map_cons, runs]
    simp only [firstRun_map h, List.length_map, ← List.map_take, ← List.map_drop, foldl_insertSorted_map h]
    rw [List.map_cons, ih]

/-! ## All runs together -/

/-- The pending runs are merged up to the same depth. -/
theorem settle_map (depth patience : Nat) (pending : List (Nat × List α)) :
    settle lt' depth patience (pending.map fun e => (e.1, e.2.map f)) =
      ((settle lt depth patience pending).1.map fun e => (e.1, e.2.map f), (settle lt depth patience pending).2) := by
  fun_induction settle lt depth patience pending with
  | case1 patience upper right lower left rest hdepth merged patience' heq ih =>
    simp only [List.map_cons]
    rw [settle, if_pos hdepth]
    simp only [mergeRuns_map h, heq]
    exact ih
  | case2 patience upper right lower left rest hdepth =>
    simp only [List.map_cons]
    rw [settle, if_neg hdepth]
  | case3 patience pending hshort =>
    rcases pending with _ | ⟨⟨upper, right⟩, _ | ⟨⟨lower, left⟩, rest⟩⟩
    · simp only [List.map_nil, settle]
    · simp only [List.map_cons, List.map_nil, settle]
    · exact absurd rfl (hshort upper right lower left rest)

/-- Pending runs of relabelled elements. -/
def Pending.map (f : α → β) (p : Pending α) : Pending β :=
  { runs := p.runs.map fun e => (e.1, e.2.map f), patience := p.patience, size := p.size }

/-- One more relabelled run is handled as the run is. -/
theorem Pending.push_map (size : Nat) (p : Pending α) (run : List α) :
    (p.map f).push lt' size (run.map f) = (p.push lt size run).map f := by
  rcases p with ⟨_ | ⟨⟨depth, last⟩, runs⟩, patience, size'⟩
  · simp [Pending.push, Pending.map]
  · have hsettle := fun boundary => settle_map h boundary patience ((depth, last) :: runs)
    simp only [List.map_cons] at hsettle
    simp only [Pending.push, Pending.map, List.map_cons, List.length_map, hsettle]

/-- The relabelled runs that are left are merged in the same order. -/
theorem collapse_map (patience : Nat) (rs : List (List α)) :
    collapse lt' patience (rs.map (List.map f)) = (collapse lt patience rs).map f := by
  fun_induction collapse lt patience rs with
  | case1 patience => simp only [List.map_nil, collapse]
  | case2 patience run => simp only [List.map_cons, List.map_nil, collapse]
  | case3 patience right left =>
    simp only [List.map_cons, List.map_nil, collapse, mergeRuns_map h]
  | case4 patience last right left rest hlength merged patience' heq ih =>
    simp only [List.map_cons]
    rw [collapse]
    simp only [List.length_map, if_pos hlength, mergeRuns_map h, heq]
    exact ih
  | case5 patience last right left rest hlength merged patience' heq ih =>
    simp only [List.map_cons]
    rw [collapse]
    simp only [List.length_map, if_neg hlength, mergeRuns_map h, heq]
    exact ih

/-- A relabelling that keeps all comparisons may be made before or after sorting. -/
theorem sortBy_map (xs : List α) : sortBy lt' (xs.map f) = (sortBy lt xs).map f := by
  -- pushing run by run, by induction on the runs
  have hpush : ∀ (size : Nat) (rs : List (List α)) (p : Pending α),
      (rs.map (List.map f)).foldl (Pending.push lt' size) (p.map f) = (rs.foldl (Pending.push lt size) p).map f := by
    intro size rs
    induction rs with
    | nil => exact fun _ => rfl
    | cons r rs ih =>
      intro p
      rw [List.map_cons, List.foldl_cons, List.foldl_cons, Pending.push_map h, ih]
  unfold sortBy
  rw [List.length_map, runs_map h]
  have hall := hpush xs.length (runs lt (leastRun xs.length) xs) {}
  have hstart : (Pending.map f {} : Pending β) = {} := rfl
  rw [hstart] at hall
  simp only [hall]
  rw [← collapse_map h]
  simp only [Pending.map, List.map_map, Function.comp_def]

end Comparisons

end VersionAudit.Sorting
