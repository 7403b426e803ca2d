import VersionAudit.Sorting.Search

/-!
# Ascending runs

A list is cut into ascending runs. A run is as long as the list happens to ascend, or to descend strictly, in
which case it is reversed. A run that is shorter than asked for is filled up from what follows it, each element
being put into its place by halving.
-/

namespace VersionAudit.Sorting

variable {α : Type}

/-- Splits off the longest front in which no element precedes the one before it, `last` being the element
before the list. -/
def ascending (lt : α → α → Bool) (last : α) : List α → List α × List α
  | [] => ([], [])
  | x :: xs =>
    if lt x last then ([], x :: xs)
    else
      let (run, rest) := ascending lt x xs
      (x :: run, rest)

/-- Splits off the longest front in which every element precedes the one before it. -/
def descending (lt : α → α → Bool) (last : α) : List α → List α × List α
  | [] => ([], [])
  | x :: xs =>
    if lt x last then
      let (run, rest) := descending lt x xs
      (x :: run, rest)
    else ([], x :: xs)

/-- The run that begins with `x`, in ascending order, and the list behind it. -/
def firstRun (lt : α → α → Bool) (x : α) : List α → List α × List α
  | [] => ([x], [])
  | y :: rest =>
    if lt y x then
      let (run, rest) := descending lt y rest
      ((x :: y :: run).reverse, rest)
    else
      let (run, rest) := ascending lt y rest
      (x :: y :: run, rest)

/-- A run with `x` put into its place, behind the elements that it does not precede. -/
def insertSorted (lt : α → α → Bool) (run : List α) (x : α) : List α :=
  run.insertIdx (bisect .forward (fun y => !lt x y) run 0 run.length) x

/-- No more is left behind an ascending part than there was. -/
theorem length_ascending_le (lt : α → α → Bool) (last : α) (xs : List α) :
    (ascending lt last xs).2.length ≤ xs.length := by
  induction xs generalizing last with
  | nil => simp [ascending]
  | cons x xs ih =>
    have := ih x
    simp only [ascending]
    split <;> simp only [List.length_cons] <;> omega

/-- No more is left behind a descending part than there was. -/
theorem length_descending_le (lt : α → α → Bool) (last : α) (xs : List α) :
    (descending lt last xs).2.length ≤ xs.length := by
  induction xs generalizing last with
  | nil => simp [descending]
  | cons x xs ih =>
    have := ih x
    simp only [descending]
    split <;> simp only [List.length_cons] <;> omega

/-- No more is left behind the first run than there was behind its first element. -/
theorem length_firstRun_le (lt : α → α → Bool) (x : α) (xs : List α) :
    (firstRun lt x xs).2.length ≤ xs.length := by
  cases xs with
  | nil => simp [firstRun]
  | cons y rest =>
    have := length_ascending_le lt y rest
    have := length_descending_le lt y rest
    simp only [firstRun]
    split <;> simp only [List.length_cons] <;> omega

/-- The runs of a list, each of at least `least` elements but for the last one. -/
def runs (lt : α → α → Bool) (least : Nat) : List α → List (List α)
  | [] => []
  | x :: xs =>
    let first := firstRun lt x xs
    let missing := least - first.1.length
    (first.2.take missing).foldl (insertSorted lt) first.1 :: runs lt least (first.2.drop missing)
termination_by xs => xs.length
decreasing_by
  have := length_firstRun_le lt x xs
  simp only [List.length_drop, List.length_cons]
  omega

end VersionAudit.Sorting
