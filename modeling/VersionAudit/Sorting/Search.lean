/-!
# Searching a sorted list

How many elements at the front of a list have a property, if those that have it come first. The number is also
defined where they do not: by the elements that are looked at.

1. `bisect`: looks at the middle of what is left.
2. `leap`: looks at positions ever further away first, then at the middles in between.
-/

namespace VersionAudit.Sorting

variable {α : Type}

/-- The way in which a list is gone through. A list that is gone through from its back is held reversed, so that
the elements looked at first are always at the front. -/
inductive Direction
  | forward
  | backward
deriving Repr, DecidableEq

/-- The middle of the positions from `low` to below `high`. Of two middle positions it is the one that is further
back in the list as it was before it was reversed. -/
def Direction.middle (d : Direction) (low high : Nat) : Nat :=
  match d with
  | .forward => (low + high) / 2
  | .backward => (low + high - 1) / 2

theorem Direction.le_middle (d : Direction) {low high : Nat} (h : low < high) : low ≤ d.middle low high := by
  cases d <;> simp only [Direction.middle] <;> omega

theorem Direction.middle_lt (d : Direction) {low high : Nat} (h : low < high) : d.middle low high < high := by
  cases d <;> simp only [Direction.middle] <;> omega

/-- The number of elements at the front that have a property, if it is at least `low` and at most `high`. -/
def bisect (d : Direction) (p : α → Bool) (xs : List α) (low high : Nat) : Nat :=
  if low < high then
    match xs[d.middle low high]? with
    | some x => if p x then bisect d p xs (d.middle low high + 1) high else bisect d p xs low (d.middle low high)
    | none => low
  else low
termination_by high - low
decreasing_by
  all_goals
    have := d.le_middle ‹low < high›
    have := d.middle_lt ‹low < high›
    omega

/-- Bounds for the number of elements at the front that have a property, if it is at least `low`. The positions
looked at are `next`, `2 * next + 1` and so on, until an element lacks the property. -/
def stride (p : α → Bool) (xs : List α) (low next : Nat) : Nat × Nat :=
  match h : xs[next]? with
  | some x => if p x then stride p xs (next + 1) (2 * next + 1) else (low, next)
  | none => (low, xs.length)
termination_by xs.length - next
decreasing_by
  have := (List.getElem?_eq_some_iff.1 h).1
  omega

/-- The number of elements at the front that have a property. It takes few looks where that number is small. -/
def leap (d : Direction) (p : α → Bool) (xs : List α) : Nat :=
  let (low, high) := stride p xs 0 0
  bisect d p xs low high

end VersionAudit.Sorting
