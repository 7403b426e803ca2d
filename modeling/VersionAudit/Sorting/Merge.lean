import VersionAudit.Sorting.Search

/-!
# Merging two ascending runs

Two runs that follow one another become one. Equal elements stay in order: those of the left run go first. The
runs are merged from the end at which the shorter one lies, at first element by element; once one of them has given
`patience` elements in a row, whole stretches are taken at a time for as long as they are long.

Where no comparison contradicts another, the result is the one ascending list, and the pace does not show. Where
comparisons contradict each other it does, so the pace is part of the rule.

1. `Merging.run`: takes elements until one of two runs is used up.
2. `mergeRuns`: leaves alone what is in its place already, and merges the rest.
-/

namespace VersionAudit.Sorting

variable {α : Type}

/-- Two runs on their way to become one: what is left of each, and what was taken from them, the latest first.
Backward, both runs are held reversed. -/
structure Merging (α : Type) where
  left : List α
  right : List α
  taken : List α := []

/-- How a merge goes on. -/
inductive Pace
  /-- Element by element; `left` and `right` say how many elements a run has just given in a row. -/
  | single (left right : Nat)
  /-- By stretches. -/
  | leaps

/-- The least length of a stretch that is long. -/
def longStretch : Nat := 7

/-- Whether the element `b` of the right run is taken before the element `a` of the left run. -/
def Direction.takesRight (d : Direction) (lt : α → α → Bool) (a b : α) : Bool :=
  match d with
  | .forward => lt b a
  | .backward => !lt b a

namespace Merging

/-- Whether no comparison is left to make. The last element of the run that lies where the merge began is never
compared: it goes behind everything else. -/
def isFinished (d : Direction) (m : Merging α) : Bool :=
  match d with
  | .forward => (m.left.drop 1).isEmpty || m.right.isEmpty
  | .backward => m.left.isEmpty || (m.right.drop 1).isEmpty

/-- All elements of a finished merge: first those taken, and at the very end that last element. -/
def result (d : Direction) (m : Merging α) : List α :=
  match d with
  | .forward => m.taken.reverse ++ (m.right ++ m.left)
  | .backward => m.taken.reverse ++ (m.left ++ m.right)

/-- Takes elements of the left run, unless the merge is finished. -/
def takeLeft (d : Direction) (count : Nat) (m : Merging α) : Merging α :=
  if m.isFinished d then m
  else { m with left := m.left.drop count, taken := (m.left.take count).reverse ++ m.taken }

/-- Takes elements of the right run, unless the merge is finished. -/
def takeRight (d : Direction) (count : Nat) (m : Merging α) : Merging α :=
  if m.isFinished d then m
  else { m with right := m.right.drop count, taken := (m.right.take count).reverse ++ m.taken }

/-- Whether the next element comes from the right run. -/
def rightIsNext (d : Direction) (lt : α → α → Bool) (m : Merging α) : Bool :=
  match m.left, m.right with
  | a :: _, b :: _ => d.takesRight lt a b
  | _, _ => false

/-- The number of elements of the left run that are taken before the next one of the right run. -/
def leftStretch (d : Direction) (lt : α → α → Bool) (m : Merging α) : Nat :=
  match m.right with
  | [] => 0
  | b :: _ => leap d (fun a => !d.takesRight lt a b) m.left

/-- The number of elements of the right run that are taken before the next one of the left run. -/
def rightStretch (d : Direction) (lt : α → α → Bool) (m : Merging α) : Nat :=
  match m.left with
  | [] => 0
  | a :: _ => leap d (fun b => d.takesRight lt a b) m.right

/-- Takes a stretch of the left run and the element of the right run behind it, then a stretch of the right run
and the element of the left run behind it. Also gives the length of the longer stretch. -/
def round (d : Direction) (lt : α → α → Bool) (m : Merging α) : Merging α × Nat :=
  let fromLeft := m.leftStretch d lt
  let m := (m.takeLeft d fromLeft).takeRight d 1
  let fromRight := m.rightStretch d lt
  ((m.takeRight d fromRight).takeLeft d 1, max fromLeft fromRight)

/-- The number of elements that are not taken yet. -/
def size (m : Merging α) : Nat :=
  m.left.length + m.right.length

theorem size_takeLeft_le (d : Direction) (count : Nat) (m : Merging α) : (m.takeLeft d count).size ≤ m.size := by
  unfold takeLeft size
  split <;> simp

theorem size_takeRight_le (d : Direction) (count : Nat) (m : Merging α) :
    (m.takeRight d count).size ≤ m.size := by
  unfold takeRight size
  split <;> simp

/-- A merge that is not finished has elements left of both runs. -/
theorem length_pos_of_not_isFinished {d : Direction} {m : Merging α} (h : m.isFinished d = false) :
    0 < m.left.length ∧ 0 < m.right.length := by
  cases d <;> simp [isFinished] at h <;> grind

theorem size_takeLeft_lt {d : Direction} {m : Merging α} (h : m.isFinished d = false) :
    (m.takeLeft d 1).size < m.size := by
  have := (length_pos_of_not_isFinished h).1
  simp only [takeLeft, h, size, List.length_drop, Bool.false_eq_true, if_false]
  omega

theorem size_takeRight_lt {d : Direction} {m : Merging α} (h : m.isFinished d = false) :
    (m.takeRight d 1).size < m.size := by
  have := (length_pos_of_not_isFinished h).2
  simp only [takeRight, h, size, List.length_drop, Bool.false_eq_true, if_false]
  omega

/-- A round that does not finish a merge takes something. -/
theorem size_round_lt {d : Direction} {lt : α → α → Bool} {m : Merging α}
    (h : (m.round d lt).1.isFinished d = false) : (m.round d lt).1.size < m.size := by
  simp only [round] at h ⊢
  generalize hm : ((m.takeLeft d (m.leftStretch d lt)).takeRight d 1) = m₁ at h ⊢
  have h₁ : m₁.size ≤ m.size := by
    rw [← hm]
    exact Nat.le_trans (size_takeRight_le ..) (size_takeLeft_le ..)
  generalize hm₂ : m₁.takeRight d (m₁.rightStretch d lt) = m₂ at h ⊢
  have h₂ : m₂.size ≤ m₁.size := by
    rw [← hm₂]
    exact size_takeRight_le ..
  have h₃ : (m₂.takeLeft d 1).size < m₂.size := by
    apply size_takeLeft_lt
    cases hf : m₂.isFinished d with
    | false => rfl
    | true => simp [takeLeft, hf] at h
  omega

/-- Takes elements until one run is used up. Also gives the patience that is left: it grows whenever stretches
become short, and shrinks while they are long. -/
def run (d : Direction) (lt : α → α → Bool) (pace : Pace) (patience : Nat) (m : Merging α) : Merging α × Nat :=
  if m.isFinished d then (m, patience)
  else
    match pace with
    | .single left right =>
      if m.rightIsNext d lt then
        run d lt (if patience ≤ right + 1 then .leaps else .single 0 (right + 1)) patience (m.takeRight d 1)
      else
        run d lt (if patience ≤ left + 1 then .leaps else .single (left + 1) 0) patience (m.takeLeft d 1)
    | .leaps =>
      let next := m.round d lt
      if next.1.isFinished d then (next.1, patience)
      else if longStretch ≤ next.2 then run d lt .leaps (max 1 (patience - 1)) next.1
      else run d lt (.single 0 0) (patience + 1) next.1
termination_by m.size
decreasing_by
  · exact size_takeRight_lt (Bool.eq_false_iff.2 ‹_›)
  · exact size_takeLeft_lt (Bool.eq_false_iff.2 ‹_›)
  · exact size_round_lt (Bool.eq_false_iff.2 ‹_›)
  · exact size_round_lt (Bool.eq_false_iff.2 ‹_›)

end Merging

/-- Two runs as one, and the patience that is left. The first element taken is known not to need a comparison: it
is the first of the right run going forward, and the last of the left run going backward. -/
def merge (d : Direction) (lt : α → α → Bool) (left right : List α) (patience : Nat) : List α × Nat :=
  match d with
  | .forward =>
    let (m, patience) := Merging.run d lt (.single 0 0) patience (Merging.takeRight d 1 { left, right })
    (m.result d, patience)
  | .backward =>
    let start : Merging α := { left := left.reverse, right := right.reverse }
    let (m, patience) := Merging.run d lt (.single 0 0) patience (start.takeLeft d 1)
    ((m.result d).reverse, patience)

/-- Two runs that follow one another as one, and the patience that is left. What precedes the right run's first
element, and what the left run's last element precedes, stays where it is. -/
def mergeRuns (lt : α → α → Bool) (left right : List α) (patience : Nat) : List α × Nat :=
  match right with
  | [] => (left, patience)
  | b :: _ =>
    let kept := leap .forward (fun a => !lt b a) left
    let low := left.drop kept
    match low.getLast? with
    | none => (left ++ right, patience)
    | some a =>
      let count := right.length - leap .backward (fun b => !lt b a) right.reverse
      let high := right.take count
      if high.isEmpty then (left ++ right, patience)
      else
        let d : Direction := if low.length ≤ high.length then .forward else .backward
        let (merged, patience) := merge d lt low high patience
        (left.take kept ++ merged ++ right.drop count, patience)

end VersionAudit.Sorting
