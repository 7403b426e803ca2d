import VersionAudit.Version.Basic

/-!
# The order of versions

Versions are ordered by their rows of items, head by head, and where a row has ended, the other one is compared
with nothing. That comparison does not go with the order of heads: a word is below a number, but a word behind
the release is above nothing and a zero is not. So the order is not transitive.

1. `Head`: what two rows are compared by, item by item. The heads are ordered linearly.
2. `compare_of_head?`: the order of rows is that of their heads and then that of their tails.
3. `compare_swap`, `compareNothing_congr`: the order looks the same from both sides, and rows of the same place are the
   same against nothing. `Version.compare_antisymm` says the former of versions.
4. `Forks`: the one way in which three rows break transitivity.
-/

namespace VersionAudit

namespace Items

/-! ## Heads -/

/-- The first item of a row, as far as the order tells it apart. -/
inductive Head
  | word (rank : Nat × String)
  | level
  | number (value : Nat)

/-- Words are below levels, and levels below numbers. -/
protected def Head.compare : Head → Head → Ordering
  | .word a, .word b => compareRank a b
  | .word _, _ => .lt
  | .level, .word _ => .gt
  | .level, .level => .eq
  | .level, .number _ => .lt
  | .number a, .number b => Ord.compare a b
  | .number _, _ => .gt

instance : Std.TransCmp compareRank :=
  inferInstanceAs (Std.TransCmp (compareLex (compareOn Prod.fst) (compareOn Prod.snd)))

instance : Std.TransCmp Head.compare where
  eq_swap {h k} := by
    cases h with
    | word a =>
      cases k with
      | word b =>
        show compareRank a b = (compareRank b a).swap
        exact Std.OrientedCmp.eq_swap
      | level => rfl
      | number b => rfl
    | level => cases k <;> rfl
    | number a =>
      cases k with
      | word b => rfl
      | level => rfl
      | number b =>
        show Ord.compare a b = (Ord.compare b a).swap
        exact Std.OrientedCmp.eq_swap
  isLE_trans {h k l} hhk hkl := by
    cases h <;> cases k <;> cases l <;> simp only [Head.compare] at hhk hkl ⊢
    all_goals first
      | exact Std.TransCmp.isLE_trans hhk hkl
      | contradiction
      | rfl

/-- The head of a row that has not ended, and the row behind it. -/
def head? : Items → Option (Head × Items)
  | .done => none
  | .number value rest => some (.number value, rest)
  | .word text rest => some (.word (wordRank text), rest)
  | .nested inner => some (.level, inner)

/-- A row has ended, or it has a head. -/
theorem eq_done_or_head? (x : Items) : x = .done ∨ ∃ h r, x.head? = some (h, r) := by
  cases x with
  | done => exact .inl rfl
  | number value rest => exact .inr ⟨_, _, rfl⟩
  | word text rest => exact .inr ⟨_, _, rfl⟩
  | nested inner => exact .inr ⟨_, _, rfl⟩

@[simp] theorem done_compare (x : Items) : Items.done.compare x = x.compareNothing.swap := by
  unfold Items.compare
  rfl

@[simp] theorem compare_done (x : Items) : x.compare .done = x.compareNothing := by
  cases x <;> rfl

/-- Rows that have not ended are compared head by head. -/
theorem compare_of_head? {x y r t : Items} {h k : Head} (hx : x.head? = some (h, r)) (hy : y.head? = some (k, t)) :
    x.compare y = (h.compare k).then (r.compare t) := by
  cases x <;> cases y <;> cases hx <;> cases hy <;> rfl

/-- Induction along a row. -/
@[elab_as_elim]
theorem head_induction {motive : Items → Prop} (done : motive .done)
    (step : ∀ x h r, x.head? = some (h, r) → motive r → motive x) (x : Items) : motive x := by
  induction x with
  | done => exact done
  | number value rest ih => exact step _ _ _ rfl ih
  | word text rest ih => exact step _ _ _ rfl ih
  | nested inner ih => exact step _ _ _ rfl ih

/-- The order looks the same from both sides. -/
theorem compare_swap (x y : Items) : (x.compare y).swap = y.compare x := by
  induction x using head_induction generalizing y with
  | done => rw [done_compare, compare_done, Ordering.swap_swap]
  | step x h r hx ih =>
    rcases eq_done_or_head? y with rfl | ⟨k, t, hy⟩
    · rw [compare_done, done_compare]
    · rw [compare_of_head? hx hy, compare_of_head? hy hx, Ordering.swap_then, ih,
        ← Std.OrientedCmp.eq_swap]

instance : Std.OrientedCmp Items.compare where
  eq_swap {x y} := (compare_swap y x).symm

/-! ## Rows against nothing -/

theorem eq_of_compareRank {a b : Nat × String} (h : compareRank a b = .eq) : a = b := by
  unfold compareRank at h
  rw [Ordering.then_eq_eq] at h
  exact Prod.ext (Std.LawfulEqOrd.eq_of_compare h.1) (Std.LawfulEqOrd.eq_of_compare h.2)

/-- A row that is the same as nothing begins with an item that is. -/
theorem compareFirst_of_compareNothing {x : Items} (h : x.compareNothing = .eq) : x.compareFirst = .eq := by
  cases x with
  | done => rfl
  | number value rest =>
    unfold compareNothing at h
    unfold compareFirst
    split at h
    · rename_i hzero
      rw [if_pos hzero]
    · cases h
  | word text rest =>
    unfold compareNothing at h
    rw [Ordering.then_eq_eq] at h
    exact h.1
  | nested inner => exact h

/-- Two rows with heads of the same place are the same against nothing if their tails are. -/
theorem compareNothing_of_head? {x y r t : Items} {h k : Head} (hx : x.head? = some (h, r))
    (hy : y.head? = some (k, t)) (hhk : h.compare k = .eq) (hnothing : r.compareNothing = t.compareNothing)
    (hfirst : r.compareFirst = t.compareFirst) :
    x.compareNothing = y.compareNothing ∧ x.compareFirst = y.compareFirst := by
  -- heads of different kinds are never of the same place
  cases x <;> cases y <;> cases hx <;> cases hy <;> simp only [Head.compare, reduceCtorEq] at hhk
  · obtain rfl := Std.LawfulEqOrd.eq_of_compare hhk
    simp only [compareNothing, compareFirst, hnothing, and_self]
  · simp only [compareNothing, compareFirst, eq_of_compareRank hhk, hnothing, and_self]
  · exact ⟨hfirst, hfirst⟩

/-- Rows of the same place are the same against nothing, and so are their first items. -/
theorem compareNothing_congr {x y : Items} (h : x.compare y = .eq) :
    x.compareNothing = y.compareNothing ∧ x.compareFirst = y.compareFirst := by
  induction x using head_induction generalizing y with
  | done =>
    rw [done_compare, Ordering.swap_eq_eq] at h
    rw [h, compareFirst_of_compareNothing h]
    exact ⟨rfl, rfl⟩
  | step x k r hx ih =>
    rcases eq_done_or_head? y with rfl | ⟨l, t, hy⟩
    · rw [compare_done] at h
      rw [h, compareFirst_of_compareNothing h]
      exact ⟨rfl, rfl⟩
    · rw [compare_of_head? hx hy, Ordering.then_eq_eq] at h
      rcases ih h.2 with ⟨hnothing, hfirst⟩
      exact compareNothing_of_head? hx hy h.1 hnothing hfirst

/-! ## Forks -/

/-- The lower one of two rows is not below nothing, and the upper one is not above it. -/
structure Crossed (x y : Items) : Prop where
  lower : x.compare y = .lt
  notBelow : x.compareNothing ≠ .lt
  notAbove : y.compareNothing ≠ .gt

/-- Three rows are the same up to a place where one of them has ended and the other two cross. If it is the
middle row that has ended, crossing is enough. Otherwise the outer row that goes on has to differ from nothing. -/
inductive Forks : Items → Items → Items → Prop
  | onward {a b c r s t : Items} {h k l : Head} (ha : a.head? = some (h, r)) (hb : b.head? = some (k, s))
      (hc : c.head? = some (l, t)) (hhk : h.compare k = .eq) (hkl : k.compare l = .eq) (tail : Forks r s t) :
      Forks a b c
  | first {b c : Items} (crossed : b.Crossed c) (below : c.compareNothing = .lt) : Forks .done b c
  | middle {a c : Items} (crossed : c.Crossed a) : Forks a .done c
  | last {a b : Items} (crossed : a.Crossed b) (above : a.compareNothing = .gt) : Forks a b .done

/-- Rows that fork are ordered in a circle. -/
theorem Forks.circle {a b c : Items} (h : Forks a b c) :
    (a.compare b).isLE ∧ (b.compare c).isLE ∧ a.compare c = .gt := by
  induction h with
  | onward ha hb hc hhk hkl _ ih =>
    -- heads of the same place leave the answer to the tails
    rcases ih with ⟨hab, hbc, hac⟩
    rw [compare_of_head? ha hb, compare_of_head? hb hc, compare_of_head? ha hc, hhk, hkl,
      Std.TransCmp.eq_trans hhk hkl]
    exact ⟨hab, hbc, hac⟩
  | first crossed below =>
    rw [done_compare, done_compare, crossed.lower, below]
    refine ⟨?_, rfl, rfl⟩
    rw [Ordering.isLE_swap]
    exact Ordering.isGE_iff_ne_lt.2 crossed.notBelow
  | middle crossed =>
    rw [done_compare, compare_done, ← compare_swap, crossed.lower]
    refine ⟨Ordering.isLE_iff_ne_gt.2 crossed.notAbove, ?_, rfl⟩
    rw [Ordering.isLE_swap]
    exact Ordering.isGE_iff_ne_lt.2 crossed.notBelow
  | last crossed above =>
    rw [compare_done, compare_done, crossed.lower, above]
    exact ⟨rfl, Ordering.isLE_iff_ne_gt.2 crossed.notAbove, rfl⟩

/-- Rows of which the lower one is above nothing or the upper one below it are not the same, so they cross. -/
theorem crossed_of_isLE {x y : Items} (h : (x.compare y).isLE) (hx : x.compareNothing ≠ .lt)
    (hy : y.compareNothing ≠ .gt) (hne : x.compareNothing ≠ y.compareNothing) : x.Crossed y := by
  refine ⟨?_, hx, hy⟩
  cases hxy : x.compare y with
  | lt => rfl
  | eq => exact absurd (compareNothing_congr hxy).1 hne
  | gt =>
    rw [hxy] at h
    cases h

/-- Rows ordered in a circle fork. -/
theorem forks_of_circle {a b c : Items} (hab : (a.compare b).isLE) (hbc : (b.compare c).isLE)
    (hac : a.compare c = .gt) : Forks a b c := by
  induction a using head_induction generalizing b c with
  | done =>
    -- the first row has ended
    rw [done_compare, Ordering.isLE_swap, Ordering.isGE_iff_ne_lt] at hab
    rw [done_compare, Ordering.swap_eq_gt] at hac
    refine .first (crossed_of_isLE hbc hab ?_ ?_) hac
    · simp [hac]
    · rw [hac]
      exact hab
  | step a h r ha ih =>
    rcases eq_done_or_head? c with rfl | ⟨l, t, hc⟩
    · -- the last row has ended
      rw [compare_done] at hac hbc
      refine .last (crossed_of_isLE hab ?_ ?_ ?_) hac
      · simp [hac]
      · exact Ordering.isLE_iff_ne_gt.1 hbc
      · rw [hac]
        exact fun hgt => Ordering.isLE_iff_ne_gt.1 hbc hgt.symm
    · rcases eq_done_or_head? b with rfl | ⟨k, s, hb⟩
      · -- the middle row has ended, and nothing stands between the other two
        rw [compare_done] at hab
        rw [done_compare, Ordering.isLE_swap, Ordering.isGE_iff_ne_lt] at hbc
        refine .middle ⟨?_, hbc, Ordering.isLE_iff_ne_gt.1 hab⟩
        rw [← compare_swap, hac]
        rfl
      · -- all three go on: their heads are the same, since heads are ordered linearly
        rw [compare_of_head? ha hb, Ordering.isLE_then_iff_or] at hab
        rw [compare_of_head? hb hc, Ordering.isLE_then_iff_or] at hbc
        rw [compare_of_head? ha hc, Ordering.then_eq_gt] at hac
        have hkl : (k.compare l).isLE := by
          rcases hbc with hlt | ⟨heq, -⟩
          · exact Ordering.isLE_of_eq_lt hlt
          · exact Ordering.isLE_of_eq_eq heq
        have hnot : h.compare l ≠ .lt := by
          rcases hac with hgt | ⟨heq, -⟩
          · simp [hgt]
          · simp [heq]
        rcases hab with hlt | ⟨hhk, hrs⟩
        · exact absurd (Std.TransCmp.lt_of_lt_of_isLE hlt hkl) hnot
        rcases hbc with hlt | ⟨hkl, hst⟩
        · exact absurd (Std.TransCmp.lt_of_eq_of_lt hhk hlt) hnot
        rcases hac with hgt | ⟨-, hrt⟩
        · rw [Std.TransCmp.eq_trans hhk hkl] at hgt
          cases hgt
        exact .onward ha hb hc hhk hkl (ih hrs hst hrt)

end Items

/-! ## Versions -/

instance : Std.OrientedCmp Version.compare where
  eq_swap {a b} := (Items.compare_swap b.items a.items).symm

/-- The order looks the same from both sides. Of two versions, the first one is below, at the same place or above, and
the second one is the other way round. Each version is at its own place. -/
theorem Version.compare_antisymm (a b : Version) :
    a.compare b = (b.compare a).swap ∧
      (a.compare b = .lt ∧ b.compare a = .gt ∨ a.compare b = .eq ∧ b.compare a = .eq ∨
        a.compare b = .gt ∧ b.compare a = .lt) ∧
      a.compare a = .eq := by
  have hswap : a.compare b = (b.compare a).swap := Std.OrientedCmp.eq_swap
  have hself : a.compare a = .eq := Std.ReflCmp.compare_self
  refine ⟨hswap, ?_, hself⟩
  rw [hswap]
  cases b.compare a with
  | lt => exact .inr (.inr ⟨rfl, rfl⟩)
  | eq => exact .inr (.inl ⟨rfl, rfl⟩)
  | gt => exact .inl ⟨rfl, rfl⟩

/-- The order of three versions is transitive unless their items fork. -/
theorem Version.isLE_trans_iff (a b c : Version) :
    ((a.compare b).isLE → (b.compare c).isLE → (a.compare c).isLE) ↔ ¬ Items.Forks a.items b.items c.items := by
  constructor
  · intro h hforks
    rcases hforks.circle with ⟨hab, hbc, hac⟩
    have hle : (a.items.compare c.items).isLE := h hab hbc
    rw [hac] at hle
    cases hle
  · intro h hab hbc
    rw [Ordering.isLE_iff_ne_gt]
    exact fun hac => h (Items.forks_of_circle hab hbc hac)

/-- A prerelease is before the release, and the release before its service pack, but the service pack stands
before the prerelease: its word is on the level of the number. -/
theorem Version.not_isLE_trans :
    ¬ ∀ a b c : Version, (a.compare b).isLE → (b.compare c).isLE → (a.compare c).isLE := by
  intro h
  have hac := h ⟨"1-alpha"⟩ ⟨"1"⟩ ⟨"1.sp"⟩ (by decide +kernel) (by decide +kernel)
  exact absurd hac (by decide +kernel)

end VersionAudit
