import Mathlib.Algebra.Order.Group.Multiset
import Mathlib.Data.List.Perm.Basic
import Mathlib.Tactic.Abel
import VersionAudit.Sorting

/-!
# Sorting rearranges

Whatever the comparison says, also where its answers contradict each other, sorting neither loses nor invents
an element: the sorted list is a permutation of the given one (`sortBy_perm`). Every step of a merge keeps the
*content* of what it works on, the multiset of all elements still in a run or taken already.
-/

namespace VersionAudit.Sorting

variable {α : Type}

/-! ## Merging two runs -/

namespace Merging

/-- Everything a merge works on, wherever it stands. -/
def content (m : Merging α) : Multiset α :=
  (m.taken : Multiset α) + m.left + m.right

/-- A cut list as the sum of its two parts. -/
private theorem coe_take_add_drop (count : Nat) (xs : List α) :
    (xs.take count : Multiset α) + xs.drop count = xs := by
  rw [Multiset.coe_add, List.take_append_drop]

/-- Elements taken from the left list stay part of the merge. -/
theorem content_takeLeft (d : Direction) (count : Nat) (m : Merging α) :
    (m.takeLeft d count).content = m.content := by
  unfold takeLeft content
  split
  · rfl
  · rw [← Multiset.coe_add, Multiset.coe_reverse, ← coe_take_add_drop count m.left]
    abel

/-- Elements taken from the right list stay part of the merge. -/
theorem content_takeRight (d : Direction) (count : Nat) (m : Merging α) :
    (m.takeRight d count).content = m.content := by
  unfold takeRight content
  split
  · rfl
  · rw [← Multiset.coe_add, Multiset.coe_reverse, ← coe_take_add_drop count m.right]
    abel

theorem content_round (d : Direction) (lt : α → α → Bool) (m : Merging α) :
    (m.round d lt).1.content = m.content := by
  simp only [round, content_takeLeft, content_takeRight]

/-- A whole merge keeps its content. -/
theorem content_run (d : Direction) (lt : α → α → Bool) (pace : Pace) (patience : Nat) (m : Merging α) :
    (run d lt pace patience m).1.content = m.content := by
  fun_induction run d lt pace patience m with
  | case1 => rfl
  | case2 _ _ _ _ _ _ ih => simpa only [dite_eq_ite, content_takeRight] using ih
  | case3 _ _ _ _ _ _ ih => simpa only [dite_eq_ite, content_takeLeft] using ih
  | case4 => exact content_round ..
  | case5 _ _ _ _ _ _ ih => rw [ih, content_round]
  | case6 _ _ _ _ _ _ ih => rw [ih, content_round]

theorem coe_result (d : Direction) (m : Merging α) : (m.result d : Multiset α) = m.content := by
  cases d <;> simp only [result, content, ← Multiset.coe_add, Multiset.coe_reverse] <;> abel

end Merging

/-- A merged list has the elements of both lists, as often as they have them. -/
theorem coe_merge (d : Direction) (lt : α → α → Bool) (left right : List α) (patience : Nat) :
    ((merge d lt left right patience).1 : Multiset α) = left + right := by
  cases d with
  | forward =>
    simp only [merge, Merging.coe_result, Merging.content_run, Merging.content_takeRight]
    simp [Merging.content]
  | backward =>
    simp only [merge, Multiset.coe_reverse, Merging.coe_result, Merging.content_run, Merging.content_takeLeft]
    simp [Merging.content]

/-- Two merged runs have the elements of both. -/
theorem coe_mergeRuns (lt : α → α → Bool) (left right : List α) (patience : Nat) :
    ((mergeRuns lt left right patience).1 : Multiset α) = left + right := by
  cases right with
  | nil => simp [mergeRuns]
  | cons b rest =>
    simp only [mergeRuns]
    split
    · simp
    · split
      · simp
      · -- what stays in its place lies in front of and behind the part that is merged
        rename_i a _ _
        have hleft := Merging.coe_take_add_drop (leap .forward (fun a => !lt b a) left) left
        have hright := Merging.coe_take_add_drop
          ((b :: rest).length - leap .backward (fun b => !lt b a) (b :: rest).reverse) (b :: rest)
        simp only [← Multiset.coe_add, coe_merge]
        rw [← add_assoc, hleft, add_assoc, hright]

/-! ## Cutting into runs -/

/-- A bisection ends within its bounds. -/
theorem bisect_le (d : Direction) (p : α → Bool) (xs : List α) {low high : Nat} (h : low ≤ high) :
    bisect d p xs low high ≤ high := by
  fun_induction bisect d p xs low high with
  | case1 low high hlt x _ _ ih => exact ih (d.middle_lt hlt)
  | case2 low high hlt x _ _ ih =>
    have := ih (d.le_middle hlt)
    have := d.middle_lt hlt
    omega
  | case3 => exact h
  | case4 => exact h

theorem coe_insertSorted (lt : α → α → Bool) (run : List α) (x : α) :
    (insertSorted lt run x : Multiset α) = x ::ₘ run := by
  unfold insertSorted
  rw [Multiset.cons_coe, Multiset.coe_eq_coe]
  exact List.perm_insertIdx x run (bisect_le _ _ _ (Nat.zero_le _))

/-- A run that is filled up has the new elements besides its own. -/
theorem coe_foldl_insertSorted (lt : α → α → Bool) (run xs : List α) :
    ((xs.foldl (insertSorted lt) run : List α) : Multiset α) = run + xs := by
  induction xs generalizing run with
  | nil => simp
  | cons x xs ih =>
    rw [List.foldl_cons, ih, coe_insertSorted, ← Multiset.cons_coe, Multiset.cons_add, Multiset.add_cons]

/-- The ascending part and the rest make up the list. -/
theorem append_ascending (lt : α → α → Bool) (last : α) (xs : List α) :
    (ascending lt last xs).1 ++ (ascending lt last xs).2 = xs := by
  induction xs generalizing last with
  | nil => rfl
  | cons x xs ih =>
    simp only [ascending]
    split
    · rfl
    · simp [ih]

/-- The descending part and the rest make up the list. -/
theorem append_descending (lt : α → α → Bool) (last : α) (xs : List α) :
    (descending lt last xs).1 ++ (descending lt last xs).2 = xs := by
  induction xs generalizing last with
  | nil => rfl
  | cons x xs ih =>
    simp only [descending]
    split
    · simp [ih]
    · rfl

/-- The first run and the rest have the elements of the list, the run perhaps reversed. -/
theorem coe_firstRun (lt : α → α → Bool) (x : α) (xs : List α) :
    ((firstRun lt x xs).1 : Multiset α) + (firstRun lt x xs).2 = x ::ₘ xs := by
  cases xs with
  | nil => simp [firstRun]
  | cons y rest =>
    simp only [firstRun]
    split
    · rw [Multiset.coe_reverse, Multiset.coe_add, List.cons_append, List.cons_append, append_descending]
      rfl
    · rw [Multiset.coe_add, List.cons_append, List.cons_append, append_ascending]
      rfl

/-- The runs have the elements of the list. -/
theorem coe_runs (lt : α → α → Bool) (least : Nat) (xs : List α) :
    ((runs lt least xs).flatten : Multiset α) = xs := by
  fun_induction runs lt least xs with
  | case1 => rfl
  | case2 x xs first missing ih =>
    rw [List.flatten_cons, ← Multiset.coe_add, ih, coe_foldl_insertSorted, add_assoc,
      Merging.coe_take_add_drop, coe_firstRun, Multiset.cons_coe]

/-! ## Merging all runs -/

/-- The elements of all pending runs. -/
def pendingContent (pending : List (Nat × List α)) : Multiset α :=
  ((pending.map (·.2)).flatten : List α)

theorem pendingContent_cons (depth : Nat) (run : List α) (pending : List (Nat × List α)) :
    pendingContent ((depth, run) :: pending) = (run : Multiset α) + pendingContent pending := by
  simp [pendingContent]

/-- Settling merges pending runs and loses nothing. -/
theorem pendingContent_settle (lt : α → α → Bool) (depth patience : Nat) (pending : List (Nat × List α)) :
    pendingContent (settle lt depth patience pending).1 = pendingContent pending := by
  fun_induction settle lt depth patience pending with
  | case1 patience upper right lower left rest _ merged patience' heq ih =>
    have hmerged := coe_mergeRuns lt left right patience
    rw [heq] at hmerged
    rw [ih, pendingContent_cons, pendingContent_cons, pendingContent_cons, hmerged]
    abel
  | case2 => rfl
  | case3 => rfl

/-- A new run is added to what is pending. -/
theorem pendingContent_push (lt : α → α → Bool) (size : Nat) (p : Pending α) (run : List α) :
    pendingContent (p.push lt size run).runs = pendingContent p.runs + run := by
  unfold Pending.push
  split
  · rename_i hnil
    simp [pendingContent, hnil]
  · simp only [pendingContent_cons, pendingContent_settle]
    rw [add_comm]

/-- All runs are added to what is pending. -/
theorem pendingContent_foldl_push (lt : α → α → Bool) (size : Nat) (p : Pending α) (rs : List (List α)) :
    pendingContent (rs.foldl (Pending.push lt size) p).runs = pendingContent p.runs + (rs.flatten : List α) := by
  induction rs generalizing p with
  | nil => simp
  | cons r rs ih =>
    rw [List.foldl_cons, ih, pendingContent_push, List.flatten_cons, ← Multiset.coe_add, add_assoc]

/-- The runs that are left are merged to one list with all their elements. -/
theorem coe_collapse (lt : α → α → Bool) (patience : Nat) (rs : List (List α)) :
    (collapse lt patience rs : Multiset α) = (rs.flatten : List α) := by
  fun_induction collapse lt patience rs with
  | case1 => rfl
  | case2 => simp
  | case3 patience right left =>
    rw [coe_mergeRuns]
    simp [add_comm, ← Multiset.coe_add]
  -- two runs are merged, and the merged one stands for both in what is left
  | case4 patience last right left rest _ merged patience' heq ih =>
    have hmerged := coe_mergeRuns lt left right patience
    rw [heq] at hmerged
    rw [ih]
    simp only [List.flatten_cons, ← Multiset.coe_add, hmerged]
    abel
  | case5 patience last right left rest _ merged patience' heq ih =>
    have hmerged := coe_mergeRuns lt right last patience
    rw [heq] at hmerged
    rw [ih]
    simp only [List.flatten_cons, ← Multiset.coe_add, hmerged]
    abel

/-- Sorting gives a permutation of the list, for every comparison. -/
theorem sortBy_perm (lt : α → α → Bool) (xs : List α) : (sortBy lt xs).Perm xs := by
  rw [← Multiset.coe_eq_coe]
  show (collapse lt _ _ : Multiset α) = xs
  rw [coe_collapse]
  have hpush := pendingContent_foldl_push lt xs.length {} (runs lt (leastRun xs.length) xs)
  rw [coe_runs] at hpush
  simpa [pendingContent] using hpush

@[simp] theorem mem_sortBy {lt : α → α → Bool} {xs : List α} {x : α} : x ∈ sortBy lt xs ↔ x ∈ xs :=
  (sortBy_perm lt xs).mem_iff

end VersionAudit.Sorting
