import Mathlib.Data.List.TakeWhile
import VersionAudit.Proofs.Sorting.Content

/-!
# Merging keeps order

A merge takes the elements of two runs one after the other, from their fronts or from their backs. Both directions are
treated alike, by the order in which the elements are taken: what was taken is in order, and all that is left may follow.

1. `Consistent`: comparisons that do not contradict each other. `Direction.InOrder`: the order in which elements are taken.
2. `bisect_eq`, `leap_eq`: a search finds the number of elements at the front that have a property, if those come first.
3. `Merging.Ordered`: the invariant of a merge, kept by every stretch that is taken (`Ordered.run`).
   `Ordered.pairwise_result`: in the end the result is in order.
-/

namespace VersionAudit.Sorting

variable {α : Type} {lt : α → α → Bool}

/-! ## Comparisons -/

/-- Comparisons that do not contradict each other: of two elements at most one precedes the other, and an element that
is not preceded by a second one is not preceded by what the second one is not preceded by. -/
structure Consistent (lt : α → α → Bool) : Prop where
  asymm : ∀ {a b : α}, lt a b = true → lt b a = false
  trans : ∀ {a b c : α}, lt b a = false → lt c b = false → lt c a = false

/-- Whether `a` may be taken before `b`, by a merge that goes in the given direction. -/
def Direction.InOrder (d : Direction) (lt : α → α → Bool) (a b : α) : Prop :=
  match d with
  | .forward => lt b a = false
  | .backward => lt a b = false

namespace Consistent

variable (h : Consistent lt) (d : Direction)

include h

theorem inOrder_trans {a b c : α} (hab : d.InOrder lt a b) (hbc : d.InOrder lt b c) : d.InOrder lt a c := by
  cases d with
  | forward => exact h.trans hab hbc
  | backward => exact h.trans hbc hab

/-- Of two elements one may be taken before the other: the one that a merge takes. -/
theorem inOrder_of_takesRight {a b : α} (htakes : d.takesRight lt a b = true) : d.InOrder lt b a := by
  cases d with
  | forward => exact h.asymm htakes
  | backward =>
    show lt b a = false
    simpa [Direction.takesRight] using htakes

/-- An element that is taken from the left goes before the one it was compared with. -/
theorem inOrder_of_takesLeft {a b : α} (htakes : d.takesRight lt a b = false) : d.InOrder lt a b := by
  cases d with
  | forward => exact htakes
  | backward =>
    have hlt : lt b a = true := by simpa [Direction.takesRight] using htakes
    exact h.asymm hlt

/-- If an element is taken before `b`, so is everything that stands before it in its run. -/
theorem takesLeft_mono {a a' b : α} (ha : d.InOrder lt a a') (htakes : d.takesRight lt a' b = false) :
    d.takesRight lt a b = false := by
  cases d with
  | forward => exact h.trans ha htakes
  | backward =>
    have hlt : lt b a' = true := by simpa [Direction.takesRight] using htakes
    have hnot : lt b a ≠ false := by
      intro hba
      have hsame : lt b a' = false := h.trans ha hba
      rw [hlt] at hsame
      cases hsame
    have hba : lt b a = true := by simpa using hnot
    simp [Direction.takesRight, hba]

/-- If an element of the right run is to be taken, so is any that stands before it there. -/
theorem takesRight_mono {a b b' : α} (hb : d.InOrder lt b b') (htakes : d.takesRight lt a b' = true) :
    d.takesRight lt a b = true := by
  cases d with
  -- seen from the front: what precedes in the right run precedes the left element as well
  | forward =>
    have hlt : lt b' a = true := htakes
    have hnot : lt b a ≠ false := by
      intro hba
      have hsame : lt b' a = false := h.trans hba hb
      rw [hlt] at hsame
      cases hsame
    show lt b a = true
    simpa using hnot
  | backward =>
    have hba : lt b' a = false := by simpa [Direction.takesRight] using htakes
    have hsame : lt b a = false := h.trans hba hb
    simp [Direction.takesRight, hsame]

end Consistent

/-! ## Searches -/

section Searches

variable {p : α → Bool} {xs : List α} (hfront : xs.Pairwise fun x y => p y = true → p x = true)

include hfront

/-- Where the elements with a property come first, an element has it if it stands among them. -/
theorem lt_length_takeWhile_iff {i : Nat} {x : α} (hx : xs[i]? = some x) :
    i < (xs.takeWhile p).length ↔ p x = true := by
  induction xs generalizing i with
  | nil => cases hx
  | cons y ys ih =>
    rw [List.pairwise_cons] at hfront
    cases i with
    | zero =>
      obtain rfl : y = x := by simpa using hx
      by_cases hy : p y = true
      · simp [hy]
      · simp [hy]
    | succ i =>
      have hx : ys[i]? = some x := by simpa using hx
      by_cases hy : p y = true
      · simp [hy, ih hfront.2 hx]
      -- no later element has the property, since the first one would have it too
      · have hnot : p x ≠ true := by
          intro hpx
          exact hy (hfront.1 x (List.mem_of_getElem? hx) hpx)
        simp [hy, hnot]

/-- A bisection finds where the elements with the property end, if that place lies within its bounds. -/
theorem bisect_eq (d : Direction) {low high : Nat} (hlow : low ≤ (xs.takeWhile p).length)
    (hhigh : (xs.takeWhile p).length ≤ high) (hlength : high ≤ xs.length) :
    bisect d p xs low high = (xs.takeWhile p).length := by
  -- the bounds close in on that place: the middle is on the one side of it or on the other
  fun_induction bisect d p xs low high with
  | case1 low high hlt x hx hpx ih =>
    have hmiddle := (lt_length_takeWhile_iff hfront hx).2 hpx
    exact ih (by omega) hhigh hlength
  | case2 low high hlt x hx hpx ih =>
    have hmiddle := mt (lt_length_takeWhile_iff hfront hx).1 hpx
    have hbelow := d.middle_lt hlt
    exact ih hlow (by omega) (by omega)
  | case3 low high hlt hx =>
    have hbelow := d.middle_lt hlt
    rw [List.getElem?_eq_none_iff] at hx
    omega
  | case4 low high hge => omega

/-- The strides end around the place where the elements with the property end. -/
theorem stride_bounds {low : Nat} (hlow : low ≤ (xs.takeWhile p).length) (next : Nat) :
    (stride p xs low next).1 ≤ (xs.takeWhile p).length ∧ (xs.takeWhile p).length ≤ (stride p xs low next).2 ∧
      (stride p xs low next).2 ≤ xs.length := by
  have hall : (xs.takeWhile p).length ≤ xs.length := (List.takeWhile_prefix p).length_le
  fun_induction stride p xs low next with
  | case1 low next x hx hpx ih =>
    have hnext := (lt_length_takeWhile_iff hfront hx).2 hpx
    exact ih (by omega)
  | case2 low next x hx hpx =>
    have hnext := mt (lt_length_takeWhile_iff hfront hx).1 hpx
    have hplace := (List.getElem?_eq_some_iff.1 hx).1
    exact ⟨hlow, by omega, by omega⟩
  | case3 low next hx => exact ⟨hlow, hall, le_refl _⟩

theorem leap_eq (d : Direction) : leap d p xs = (xs.takeWhile p).length := by
  rcases stride_bounds hfront (Nat.zero_le _) 0 with ⟨hlow, hhigh, hlength⟩
  unfold leap
  exact bisect_eq hfront d hlow hhigh hlength

theorem take_leap (d : Direction) : xs.take (leap d p xs) = xs.takeWhile p := by
  rw [leap_eq hfront d]
  exact (List.prefix_iff_eq_take.1 (List.takeWhile_prefix p)).symm

theorem drop_leap (d : Direction) : xs.drop (leap d p xs) = xs.dropWhile p := by
  have hcut : xs.takeWhile p ++ xs.drop (leap d p xs) = xs.takeWhile p ++ xs.dropWhile p := by
    rw [List.takeWhile_append_dropWhile, ← take_leap hfront d, List.take_append_drop]
  exact List.append_cancel_left hcut

/-- No element of the rest has the property. -/
theorem not_of_mem_dropWhile {x : α} (hx : x ∈ xs.dropWhile p) : p x = false := by
  induction xs with
  | nil => cases hx
  | cons y ys ih =>
    rw [List.pairwise_cons] at hfront
    by_cases hy : p y = true
    · rw [List.dropWhile_cons_of_pos hy] at hx
      exact ih hfront.2 hx
    · rw [List.dropWhile_cons_of_neg hy] at hx
      rcases List.mem_cons.1 hx with rfl | hx
      · simpa using hy
      · by_contra hpx
        exact hy (hfront.1 x hx (by simpa using hpx))

end Searches

/-! ## Merging two runs -/

namespace Merging

variable {d : Direction} {m : Merging α}

/-! ### What was taken, and what is left -/

section Taking

variable {R : α → α → Prop} {taken own other : List α}

/-- Taking elements from a run moves the border between what was taken and what is left. -/
theorem pairwise_own (h : (taken.reverse ++ own).Pairwise R) (count : Nat) :
    (((own.take count).reverse ++ taken).reverse ++ own.drop count).Pairwise R := by
  have hcut : ((own.take count).reverse ++ taken).reverse ++ own.drop count = taken.reverse ++ own := by
    rw [List.reverse_append, List.reverse_reverse, List.append_assoc, List.take_append_drop]
  rw [hcut]
  exact h

/-- The other run may still follow if it may follow what is taken. -/
theorem pairwise_other (hown : (taken.reverse ++ own).Pairwise R) (hother : (taken.reverse ++ other).Pairwise R)
    {count : Nat} (hbefore : ∀ a ∈ own.take count, ∀ b ∈ other, R a b) :
    (((own.take count).reverse ++ taken).reverse ++ other).Pairwise R := by
  have htaken := (List.pairwise_append.1 (pairwise_own hown count)).1
  rcases List.pairwise_append.1 hother with ⟨-, hsorted, hcross⟩
  rw [List.pairwise_append]
  refine ⟨htaken, hsorted, ?_⟩
  intro a ha b hb
  rw [List.reverse_append, List.reverse_reverse] at ha
  rcases List.mem_append.1 ha with ha | ha
  · exact hcross a ha b hb
  · exact hbefore a ha b hb

/-- A single element goes behind the other run if all of that may be taken before it. -/
theorem pairwise_last {x : α} (hown : (taken.reverse ++ own).Pairwise R) (hx : (taken.reverse ++ [x]).Pairwise R)
    (hlast : ∀ a ∈ own, R a x) : (taken.reverse ++ (own ++ [x])).Pairwise R := by
  rcases List.pairwise_append.1 hx with ⟨-, hsingle, htaken⟩
  rw [← List.append_assoc, List.pairwise_append]
  refine ⟨hown, hsingle, ?_⟩
  intro a ha b hb
  rcases List.mem_append.1 ha with ha | ha
  · exact htaken a ha b hb
  · rw [List.mem_singleton.1 hb]
    exact hlast a ha

/-- Dropping elements at the front leaves the last one, if any is left. -/
theorem getLast?_of_drop {count : Nat} {x : α} (h : (own.drop count).getLast? = some x) : own.getLast? = some x := by
  rw [List.getLast?_drop] at h
  split at h
  · cases h
  · exact h

end Taking

/-! ### The invariant -/

/-- The element that no comparison looks at may be taken last: the last one of the run that lies where the merge began. -/
def Guarded (d : Direction) (lt : α → α → Bool) (m : Merging α) : Prop :=
  match d with
  | .forward => ∀ a, m.left.getLast? = some a → ∀ b ∈ m.right, d.InOrder lt b a
  | .backward => ∀ b, m.right.getLast? = some b → ∀ a ∈ m.left, d.InOrder lt a b

/-- What was taken is in order, and so is what is left of either run behind it. -/
structure Ordered (d : Direction) (lt : α → α → Bool) (m : Merging α) : Prop where
  left : (m.taken.reverse ++ m.left).Pairwise (d.InOrder lt)
  right : (m.taken.reverse ++ m.right).Pairwise (d.InOrder lt)
  last : m.Guarded d lt

theorem takeLeft_of_isFinished (h : m.isFinished d = true) (count : Nat) : m.takeLeft d count = m := by
  unfold takeLeft
  rw [if_pos h]

theorem takeRight_of_isFinished (h : m.isFinished d = true) (count : Nat) : m.takeRight d count = m := by
  unfold takeRight
  rw [if_pos h]

/-- A merge that is not finished has an element on each side to compare. -/
theorem exists_heads (h : ¬ m.isFinished d = true) :
    ∃ a left b right, m.left = a :: left ∧ m.right = b :: right := by
  rw [Bool.not_eq_true] at h
  rcases length_pos_of_not_isFinished h with ⟨hleft, hright⟩
  rcases List.exists_cons_of_length_pos hleft with ⟨a, left, hl⟩
  rcases List.exists_cons_of_length_pos hright with ⟨b, right, hr⟩
  exact ⟨a, left, b, right, hl, hr⟩

/-- An element that may be taken before the first one of a run may be taken before the whole run. -/
theorem inOrder_of_head (hlt : Consistent lt) {x y : α} {ys : List α} (hys : (y :: ys).Pairwise (d.InOrder lt))
    (hxy : d.InOrder lt x y) : ∀ z ∈ y :: ys, d.InOrder lt x z := by
  rw [List.pairwise_cons] at hys
  intro z hz
  rcases List.mem_cons.1 hz with rfl | hz
  · exact hxy
  · exact hlt.inOrder_trans d hxy (hys.1 z hz)

namespace Ordered

theorem left_sorted (h : m.Ordered d lt) : m.left.Pairwise (d.InOrder lt) :=
  (List.pairwise_append.1 h.left).2.1

theorem right_sorted (h : m.Ordered d lt) : m.right.Pairwise (d.InOrder lt) :=
  (List.pairwise_append.1 h.right).2.1

/-- Elements of the left run may be taken if all that is left of the right run may follow. -/
theorem takeLeft (h : m.Ordered d lt) {count : Nat}
    (hbefore : ∀ a ∈ m.left.take count, ∀ b ∈ m.right, d.InOrder lt a b) : (m.takeLeft d count).Ordered d lt := by
  unfold Merging.takeLeft
  split
  · exact h
  · refine ⟨pairwise_own h.left count, pairwise_other h.left h.right hbefore, ?_⟩
    have hlast := h.last
    cases d with
    | forward =>
      intro a ha b hb
      exact hlast a (getLast?_of_drop ha) b hb
    | backward =>
      intro b hb a ha
      exact hlast b hb a (List.mem_of_mem_drop ha)

/-- Elements of the right run may be taken if all that is left of the left run may follow. -/
theorem takeRight (h : m.Ordered d lt) {count : Nat}
    (hbefore : ∀ b ∈ m.right.take count, ∀ a ∈ m.left, d.InOrder lt b a) : (m.takeRight d count).Ordered d lt := by
  unfold Merging.takeRight
  split
  · exact h
  · refine ⟨pairwise_other h.right h.left hbefore, pairwise_own h.right count, ?_⟩
    have hlast := h.last
    cases d with
    | forward =>
      intro a ha b hb
      exact hlast a ha b (List.mem_of_mem_drop hb)
    | backward =>
      intro b hb a ha
      exact hlast b (getLast?_of_drop hb) a ha

section Steps

variable (hlt : Consistent lt)

include hlt

/-- The first element of the left run may be taken, unless that of the right run is to be taken before it. -/
theorem takeLeft_head (h : m.Ordered d lt)
    (hnext : ∀ a left b right, m.left = a :: left → m.right = b :: right → d.takesRight lt a b = false) :
    (m.takeLeft d 1).Ordered d lt := by
  by_cases hfinished : m.isFinished d = true
  · rw [takeLeft_of_isFinished hfinished]
    exact h
  rcases exists_heads hfinished with ⟨a, left, b, right, hl, hr⟩
  -- the head of the left run goes before that of the right one, and so before all of it
  have hfirst : d.InOrder lt a b := hlt.inOrder_of_takesLeft d (hnext a left b right hl hr)
  have hright := h.right_sorted
  rw [hr] at hright
  apply h.takeLeft
  intro a' ha' b' hb'
  rw [hl, List.take_succ_cons, List.take_zero, List.mem_singleton] at ha'
  rw [hr] at hb'
  rw [ha']
  exact inOrder_of_head hlt hright hfirst b' hb'

/-- The first element of the right run may be taken, if it is to be taken before that of the left one. -/
theorem takeRight_head (h : m.Ordered d lt)
    (hnext : ∀ a left b right, m.left = a :: left → m.right = b :: right → d.takesRight lt a b = true) :
    (m.takeRight d 1).Ordered d lt := by
  by_cases hfinished : m.isFinished d = true
  · rw [takeRight_of_isFinished hfinished]
    exact h
  rcases exists_heads hfinished with ⟨a, left, b, right, hl, hr⟩
  have hfirst : d.InOrder lt b a := hlt.inOrder_of_takesRight d (hnext a left b right hl hr)
  have hleft := h.left_sorted
  rw [hl] at hleft
  apply h.takeRight
  intro b' hb' a' ha'
  rw [hr, List.take_succ_cons, List.take_zero, List.mem_singleton] at hb'
  rw [hl] at ha'
  rw [hb']
  exact inOrder_of_head hlt hleft hfirst a' ha'

/-- A stretch of the left run, and the element of the right run behind it. -/
theorem takeLeftStretch (h : m.Ordered d lt) :
    ((m.takeLeft d (m.leftStretch d lt)).takeRight d 1).Ordered d lt := by
  by_cases hfinished : m.isFinished d = true
  · rw [takeLeft_of_isFinished hfinished, takeRight_of_isFinished hfinished]
    exact h
  rcases exists_heads hfinished with ⟨-, -, b, right, -, hr⟩
  have hstretch : m.leftStretch d lt = leap d (fun a => !d.takesRight lt a b) m.left := by
    unfold leftStretch
    rw [hr]
  -- what is taken before `b` comes first in the left run
  have hfront : m.left.Pairwise fun x y => (!d.takesRight lt y b) = true → (!d.takesRight lt x b) = true := by
    refine h.left_sorted.imp ?_
    intro x y hxy hy
    rw [Bool.not_eq_true'] at hy ⊢
    exact hlt.takesLeft_mono d hxy hy
  have hright := h.right_sorted
  rw [hr] at hright
  have htaken : (m.takeLeft d (m.leftStretch d lt)).Ordered d lt := by
    apply h.takeLeft
    intro a ha b' hb'
    rw [hstretch, take_leap hfront] at ha
    have htakes : d.takesRight lt a b = false := by simpa using List.mem_takeWhile_imp ha
    rw [hr] at hb'
    exact inOrder_of_head hlt hright (hlt.inOrder_of_takesLeft d htakes) b' hb'
  apply htaken.takeRight_head hlt
  intro a left b' right' hl' hr'
  unfold Merging.takeLeft at hl' hr'
  rw [if_neg hfinished] at hl' hr'
  dsimp only at hl' hr'
  obtain rfl := (List.cons.inj (hr.symm.trans hr')).1
  have hstop := List.head?_dropWhile_not (fun a => !d.takesRight lt a b) m.left
  rw [← drop_leap hfront d, ← hstretch, hl'] at hstop
  simpa using hstop

/-- A stretch of the right run, and the element of the left run behind it. -/
theorem takeRightStretch (h : m.Ordered d lt) :
    ((m.takeRight d (m.rightStretch d lt)).takeLeft d 1).Ordered d lt := by
  by_cases hfinished : m.isFinished d = true
  · rw [takeRight_of_isFinished hfinished, takeLeft_of_isFinished hfinished]
    exact h
  rcases exists_heads hfinished with ⟨a, left, -, -, hl, -⟩
  have hstretch : m.rightStretch d lt = leap d (fun b => d.takesRight lt a b) m.right := by
    unfold rightStretch
    rw [hl]
  -- what is taken before `a` comes first in the right run
  have hfront : m.right.Pairwise fun x y => d.takesRight lt a y = true → d.takesRight lt a x = true :=
    h.right_sorted.imp fun hxy => hlt.takesRight_mono d hxy
  have hleft := h.left_sorted
  rw [hl] at hleft
  have htaken : (m.takeRight d (m.rightStretch d lt)).Ordered d lt := by
    apply h.takeRight
    intro b hb a' ha'
    rw [hstretch, take_leap hfront] at hb
    rw [hl] at ha'
    exact inOrder_of_head hlt hleft (hlt.inOrder_of_takesRight d (List.mem_takeWhile_imp hb)) a' ha'
  apply htaken.takeLeft_head hlt
  intro a' left' b right hl' hr'
  unfold Merging.takeRight at hl' hr'
  rw [if_neg hfinished] at hl' hr'
  dsimp only at hl' hr'
  obtain rfl := (List.cons.inj (hl.symm.trans hl')).1
  have hstop := List.head?_dropWhile_not (fun b => d.takesRight lt a b) m.right
  rw [← drop_leap hfront d, ← hstretch, hr'] at hstop
  simpa using hstop

theorem round (h : m.Ordered d lt) : (m.round d lt).1.Ordered d lt :=
  (h.takeLeftStretch hlt).takeRightStretch hlt

/-- A whole merge keeps the invariant, at whatever pace it goes. -/
theorem run (h : m.Ordered d lt) (pace : Pace) (patience : Nat) :
    (Merging.run d lt pace patience m).1.Ordered d lt := by
  fun_induction Merging.run d lt pace patience m with
  | case1 => exact h
  | case2 patience m _ _ _ hnext ih =>
    apply ih
    apply h.takeRight_head hlt
    intro a left b right hl hr
    unfold rightIsNext at hnext
    rw [hl, hr] at hnext
    exact hnext
  | case3 patience m _ _ _ hnext ih =>
    apply ih
    apply h.takeLeft_head hlt
    intro a left b right hl hr
    unfold rightIsNext at hnext
    rw [hl, hr] at hnext
    simpa using hnext
  | case4 => exact h.round hlt
  | case5 _ _ _ _ _ _ ih => exact ih (h.round hlt)
  | case6 _ _ _ _ _ _ ih => exact ih (h.round hlt)

end Steps

/-- When no comparison is left to make, what is left can be put behind what was taken. -/
theorem pairwise_result (h : m.Ordered d lt) (hfinished : m.isFinished d = true) :
    (m.result d).Pairwise (d.InOrder lt) := by
  rcases h with ⟨hleft, hright, hlast⟩
  cases d with
  | forward =>
    unfold result
    -- forward, the last element of the left run may be left, which goes behind all of the right one
    rcases hl : m.left with _ | ⟨a, _ | ⟨a', left⟩⟩
    · rw [List.append_nil]
      exact hright
    · rw [hl] at hleft
      exact pairwise_last hright hleft (hlast a (by rw [hl]; rfl))
    · have hnone : m.right = [] := by simpa [isFinished, hl] using hfinished
      rw [hl] at hleft
      rw [hnone, List.nil_append]
      exact hleft
  | backward =>
    unfold result
    -- backward, the same holds of the first element of the right run
    rcases hr : m.right with _ | ⟨b, _ | ⟨b', right⟩⟩
    · rw [List.append_nil]
      exact hleft
    · rw [hr] at hright
      exact pairwise_last hleft hright (hlast b (by rw [hr]; rfl))
    · have hnone : m.left = [] := by simpa [isFinished, hr] using hfinished
      rw [hr] at hright
      rw [hnone, List.nil_append]
      exact hright

end Ordered

/-- A merge runs until it is finished. -/
theorem isFinished_run (d : Direction) (lt : α → α → Bool) (pace : Pace) (patience : Nat) (m : Merging α) :
    (run d lt pace patience m).1.isFinished d = true := by
  fun_induction run d lt pace patience m with
  | case1 _ _ _ h => exact h
  | case2 _ _ _ _ _ _ ih => exact ih
  | case3 _ _ _ _ _ _ ih => exact ih
  | case4 _ _ _ _ h => exact h
  | case5 _ _ _ _ _ _ ih => exact ih
  | case6 _ _ _ _ _ _ ih => exact ih

end Merging

end VersionAudit.Sorting
