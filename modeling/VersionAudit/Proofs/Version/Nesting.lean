import VersionAudit.Proofs.Version.Agreement
import VersionAudit.Version.Scan

/-!
# Items as lists

The type of items has room for one deeper level only, at the end of a level. Lists whose members are numbers, words and
further lists have room for any number of them at any place. A version can be read into such lists too: what does not
count is then deleted list by list, from the innermost one outwards, and in each list from its end.

1. `Member.normalize_cons`: what the deletion in one list does with its first member.
2. `Items.members`: a row of items as a list. `normalize_unsettled`: the normal row is what is left when all its lists
   are normalized, beginning with the innermost one.
3. `Member.IsTidy`: numbers and words, of which the last one counts, and then at most one list. `Items.Trimmed.isTidy`:
   a trimmed row is such a list, and so is each list in it (`Items.Trimmed.exists_of_within`).
-/

namespace VersionAudit

namespace Member

/-! ## Normal lists -/

/-- A word is nothing if it is the release. -/
theorem isNull_word {text : String} : (word text).isNull = true ↔ text = "" := by
  have hrelease : Items.wordRank "" = Items.releaseRank := by decide
  unfold isNull
  rw [beq_iff_eq, ← hrelease]
  constructor
  · intro h
    exact Items.wordRank_injective h
  · intro h
    rw [h]

/-- A member in front of others goes if it is nothing and only lists are left of them. -/
theorem dropNull_concat (ms : List Member) (m : Member) :
    dropNull (ms ++ [m]) = if m.isNull ∧ (dropNull ms).all isList then dropNull ms else dropNull ms ++ [m] := by
  induction ms with
  | nil =>
    cases hnull : m.isNull <;> cases hlist : m.isList <;> simp [dropNull, hnull, hlist]
  | cons n ms ih =>
    rw [List.cons_append]
    unfold dropNull
    cases hnull : n.isNull with
    | true =>
      rw [if_pos rfl, if_pos rfl]
      exact ih
    | false =>
      cases hlist : n.isList with
      | true =>
        -- the walk goes on in front of a list that stays
        simp only [Bool.false_eq_true, if_false, if_true, ih, List.all_cons, hlist, Bool.true_and]
        split <;> rfl
      | false =>
        simp [hlist]

/-- A null member in front is deleted as well if nothing but lists is left behind it. -/
theorem normalize_cons (m : Member) (ms : List Member) :
    normalize (m :: ms) = if m.isNull ∧ (normalize ms).all isList then normalize ms else m :: normalize ms := by
  unfold normalize
  rw [List.reverse_cons, dropNull_concat, List.all_reverse]
  split
  · rfl
  · rw [List.reverse_append]
    rfl

end Member

namespace Items

/-! ## Rows as lists -/

/-- The items of a row as the members of a list. -/
def members : Items → List Member
  | .done => []
  | .number value rest => .number value :: rest.members
  | .word text rest => .word text :: rest.members
  | .nested inner => [.list inner.members]

/-- The items of a row as a list that is still to be normalized, while all lists in it are normal. -/
def unsettled : Items → List Member
  | .done => []
  | .number value rest => .number value :: rest.unsettled
  | .word text rest => .word text :: rest.unsettled
  | .nested inner => [.list (Member.normalize inner.unsettled)]

theorem members_eq_nil_iff {x : Items} : x.members = [] ↔ x = .done := by
  cases x <;> simp [members]

/-- A row without numbers and words is a list of lists. -/
theorem all_isList_members (x : Items) : x.members.all Member.isList = x.atEnd := by
  cases x with
  | done => rfl
  | number value rest => rfl
  | word text rest => rfl
  | nested inner => rfl

/-- The normal row, list by list. -/
theorem normalize_unsettled (x : Items) : Member.normalize x.unsettled = x.normal.members := by
  -- item by item from the end, as lists are closed
  induction x with
  | done => rfl
  | number value rest ih =>
    unfold unsettled normal consNumber
    rw [Member.normalize_cons, ih, all_isList_members]
    have hnull : (Member.number value).isNull = true ↔ value = 0 := by simp [Member.isNull]
    simp only [hnull]
    split
    · rfl
    · rfl
  | word text rest ih =>
    unfold unsettled normal consWord
    rw [Member.normalize_cons, ih, all_isList_members]
    simp only [Member.isNull_word]
    split
    · rfl
    · rfl
  | nested inner ih =>
    unfold unsettled normal nest
    rw [ih]
    split
    · rename_i hdone
      rw [hdone]
      rfl
    · rename_i hinner
      have hnull : (Member.list inner.normal.members).isNull = false := by
        rw [Member.isNull, List.isEmpty_eq_false_iff, Ne, members_eq_nil_iff]
        exact hinner
      rw [Member.normalize_cons, hnull]
      rfl

end Items

namespace Member

/-! ## Tidy lists -/

/-- A list, part by part: a row of numbers and words, the last of which is neither a zero nor a release, and behind it
possibly one list, which has members. -/
structure Parts (ms row : List Member) (deeper : Option (List Member)) : Prop where
  eq_append : ms = row ++ (deeper.map list).toList
  flat : ∀ m ∈ row, m.isList = false
  deeper_ne : ∀ inner, deeper = some inner → inner ≠ []
  counts : ∀ m, row.getLast? = some m → m ≠ .number 0 ∧ m ≠ .word ""

def IsTidy (ms : List Member) : Prop :=
  ∃ row deeper, Parts ms row deeper

/-- A member in front of a list that is tidy. It has to count if no number and no word follows. -/
theorem Parts.cons {ms row : List Member} {deeper : Option (List Member)} (h : Parts ms row deeper) {m : Member}
    (hflat : m.isList = false) (hcounts : ms.all isList = true → m ≠ .number 0 ∧ m ≠ .word "") :
    Parts (m :: ms) (m :: row) deeper where
  eq_append := by rw [h.eq_append, List.cons_append]
  flat := List.forall_mem_cons.2 ⟨hflat, h.flat⟩
  deeper_ne := h.deeper_ne
  counts := by
    intro last hlast
    -- the last of the row is the new member, or it was the last one before
    cases row with
    | nil =>
      have hlists : ms.all isList = true := by
        rw [h.eq_append]
        cases deeper <;> rfl
      obtain rfl : m = last := by simpa using hlast
      exact hcounts hlists
    | cons second row =>
      rw [List.getLast?_cons_cons] at hlast
      exact h.counts last hlast

/-- The lists in a list, at any depth, and the list itself. -/
inductive Within (whole : List Member) : List Member → Prop
  | whole : Within whole whole
  | inner {ms inner : List Member} (outer : Within whole ms) (mem : .list inner ∈ ms) : Within whole inner

end Member

namespace Items

/-- The lists of a trimmed row are tidy. -/
theorem Trimmed.isTidy {x : Items} (h : x.Trimmed) : Member.IsTidy x.members := by
  induction x with
  | done => exact ⟨[], none, ⟨rfl, by simp, by simp, by simp⟩⟩
  | number value rest ih =>
    obtain ⟨row, deeper, hparts⟩ := ih h.2
    refine ⟨.number value :: row, deeper, hparts.cons rfl ?_⟩
    -- if only lists follow, the number ends its level, and a zero would have been trimmed
    intro hlists
    rw [all_isList_members] at hlists
    have hvalue : value ≠ 0 := by
      intro hzero
      rw [h.1 hzero] at hlists
      cases hlists
    simpa using hvalue
  | word text rest ih =>
    obtain ⟨row, deeper, hparts⟩ := ih h.2
    refine ⟨.word text :: row, deeper, hparts.cons rfl ?_⟩
    intro hlists
    rw [all_isList_members] at hlists
    have htext : text ≠ "" := by
      intro hrelease
      rw [h.1 hrelease] at hlists
      cases hlists
    simpa using htext
  | nested inner ih =>
    refine ⟨[], some inner.members, ⟨rfl, by simp, ?_, by simp⟩⟩
    intro members hmembers
    obtain rfl := Option.some.inj hmembers
    rw [Ne, members_eq_nil_iff]
    exact h.1

/-- A list among the members of a trimmed row is a trimmed row with something in it. -/
theorem Trimmed.exists_of_mem {x : Items} (h : x.Trimmed) {inner : List Member} (hmem : .list inner ∈ x.members) :
    ∃ y : Items, y.Trimmed ∧ inner = y.members ∧ inner ≠ [] := by
  induction x with
  | done => cases hmem
  | number value rest ih =>
    apply ih h.2
    simpa [members] using hmem
  | word text rest ih =>
    apply ih h.2
    simpa [members] using hmem
  | nested level ih =>
    obtain rfl : inner = level.members := by simpa [members] using hmem
    refine ⟨level, h.2, rfl, ?_⟩
    rw [Ne, members_eq_nil_iff]
    exact h.1

/-- The lists within a trimmed row are those of trimmed rows. -/
theorem Trimmed.exists_of_within {x : Items} (h : x.Trimmed) {ms : List Member} (hms : Member.Within x.members ms) :
    ∃ y : Items, y.Trimmed ∧ ms = y.members := by
  induction hms with
  | whole => exact ⟨x, h, rfl⟩
  | inner outer mem ih =>
    obtain ⟨y, hy, rfl⟩ := ih
    obtain ⟨z, hz, hinner, -⟩ := hy.exists_of_mem mem
    exact ⟨z, hz, hinner⟩

end Items

end VersionAudit
