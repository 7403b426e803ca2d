import VersionAudit.Sorting.Merge
import VersionAudit.Sorting.Runs

/-!
# Sorting

Sorting a list by a comparison that need not be transitive. The order of the result is then still defined, by the
comparisons made: the list is cut into ascending runs, and neighbouring runs are merged until one is left. On a
transitive comparison this is the stable sort.

Which runs are merged first follows a balanced tree over the positions of the list: the boundary between two runs
has a depth in that tree, and deeper boundaries vanish first.
-/

namespace VersionAudit.Sorting

variable {α : Type}

/-- The least length of a run in a list of `size` elements. Short lists are one run; a longer one is halved,
rounding up, into runs of at most 64 elements. -/
def leastRun (size : Nat) : Nat :=
  let share := 1 <<< (size.log2 - 5)
  (size + share - 1) / share

/-- The depth at which two points `a < b` of the interval from 0 to `2 * size` lie in different halves, when the
interval is halved again and again. -/
def boundaryDepth (size a b : Nat) : Nat :=
  if h : 0 < size ∧ a < b ∧ a / size = b / size then
    boundaryDepth size (2 * (a % size)) (2 * (b % size)) + 1
  else 1
termination_by size - (b - a)
decreasing_by
  obtain ⟨hs, hab, hq⟩ := h
  have ha := Nat.div_add_mod a size
  have hb := Nat.div_add_mod b size
  have := Nat.mod_lt b hs
  rw [hq] at ha
  omega

/-- Runs in front of the part of a list that is not looked at yet, the latest first. -/
structure Pending (α : Type) where
  /-- Each run with the depth of the boundary before it. -/
  runs : List (Nat × List α) := []
  /-- How many elements in a row a run gives before a merge looks for stretches. -/
  patience : Nat := longStretch
  /-- The number of elements in the runs. -/
  size : Nat := 0

/-- Merges the latest runs while the boundary between them is deeper than `depth`. -/
def settle (lt : α → α → Bool) (depth : Nat) (patience : Nat) : List (Nat × List α) → List (Nat × List α) × Nat
  | (upper, right) :: (lower, left) :: rest =>
    if depth < upper then
      let (merged, patience) := mergeRuns lt left right patience
      settle lt depth patience ((lower, merged) :: rest)
    else ((upper, right) :: (lower, left) :: rest, patience)
  | pending => (pending, patience)
termination_by pending => pending.length

/-- Adds the next run of a list of `size` elements. -/
def Pending.push (lt : α → α → Bool) (size : Nat) (p : Pending α) (run : List α) : Pending α :=
  match p.runs with
  | [] => { p with runs := [(0, run)], size := run.length }
  | (_, last) :: _ =>
    let depth := boundaryDepth size (2 * p.size - last.length) (2 * p.size + run.length)
    let (runs, patience) := settle lt depth p.patience p.runs
    { runs := (depth, run) :: runs, patience, size := p.size + run.length }

/-- One run made of all. Of three latest runs the shorter outer one is merged with the middle one. -/
def collapse (lt : α → α → Bool) (patience : Nat) : List (List α) → List α
  | [] => []
  | [run] => run
  | [right, left] => (mergeRuns lt left right patience).1
  | last :: right :: left :: rest =>
    if left.length < last.length then
      let (merged, patience) := mergeRuns lt left right patience
      collapse lt patience (last :: merged :: rest)
    else
      let (merged, patience) := mergeRuns lt right last patience
      collapse lt patience (merged :: left :: rest)
termination_by runs => runs.length

/-- The list in ascending order. -/
def sortBy (lt : α → α → Bool) (xs : List α) : List α :=
  let pending := (runs lt (leastRun xs.length) xs).foldl (Pending.push lt xs.length) {}
  collapse lt pending.patience (pending.runs.map (·.2))

end VersionAudit.Sorting
