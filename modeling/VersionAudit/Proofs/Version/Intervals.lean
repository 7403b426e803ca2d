import VersionAudit.Proofs.Version.Order
import VersionAudit.Proofs.Version.Specification

/-!
# Sets of intervals

A set of intervals that is read without a fault is in ascending order, as far as the bounds of neighbours tell. Where
each interval but the last has an upper bound, this keeps all of them apart, but for ends that touch.

1. `Interval.Holds`: the versions of an interval, by its bounds.
2. `WellOrdered`: no interval is reversed, and none begins below the upper bound of the one before it.
   `VersionRange.wellOrdered_intervals`: what is read is so.
3. `WellOrdered.pairwise_apart`: where no upper bound is missing on the way, each interval ends before any later one
   begins.
4. `VersionRange.countP_contains_le_one_iff`: at most one interval holds a version, unless it is where two of them touch.
-/

namespace VersionAudit

namespace Version

/-! ## The order -/

/-- A version is not before another one just if that one is at most as high. -/
theorem before_eq_false_iff {a b : Version} : a.before b = false ↔ (b.compare a).isLE = true := by
  have hswap : b.compare a = (a.compare b).swap := Std.OrientedCmp.eq_swap
  unfold before
  rw [hswap]
  cases a.compare b with
  | lt => decide
  | eq => decide
  | gt => decide

theorem before_self_eq_false (v : Version) : v.before v = false := by
  have hself : v.compare v = .eq := Std.ReflCmp.compare_self
  rw [before_eq_false_iff, hself]
  rfl

/-- Two versions neither of which is higher than the other are equal. -/
theorem compare_eq_of_isLE {a b : Version} (hab : (a.compare b).isLE = true) (hba : (b.compare a).isLE = true) :
    a.compare b = .eq := by
  have hswap : b.compare a = (a.compare b).swap := Std.OrientedCmp.eq_swap
  rw [hswap] at hba
  cases hcompare : a.compare b with
  | lt =>
    rw [hcompare] at hba
    cases hba
  | eq => rfl
  | gt =>
    rw [hcompare] at hab
    cases hab

/-- Among these versions the order is transitive. -/
def TransOn (vs : List Version) : Prop :=
  ∀ a ∈ vs, ∀ b ∈ vs, ∀ c ∈ vs,
    (a.compare b).isLE = true → (b.compare c).isLE = true → (a.compare c).isLE = true

instance (vs : List Version) : Decidable (TransOn vs) :=
  inferInstanceAs (Decidable (∀ a ∈ vs, ∀ b ∈ vs, ∀ c ∈ vs,
    (a.compare b).isLE = true → (b.compare c).isLE = true → (a.compare c).isLE = true))

theorem TransOn.mono {vs ws : List Version} (h : TransOn ws) (hsub : vs ⊆ ws) : TransOn vs :=
  fun a ha b hb c hc => h a (hsub ha) b (hsub hb) c (hsub hc)

end Version

namespace Interval

/-! ## One interval -/

/-- The versions of an interval: those between its bounds, and the bounds that are closed. -/
def Holds (i : Interval) (v : Version) : Prop :=
  (∀ l, i.lower = some l → v.compare l = .gt ∨ v.compare l = .eq ∧ i.lowerInclusive = true) ∧
    ∀ u, i.upper = some u → v.compare u = .lt ∨ v.compare u = .eq ∧ i.upperInclusive = true

/-- A version is above the lower end if it is higher than that bound, or equal to it where it is included. -/
theorem aboveLower_iff {i : Interval} {v : Version} : i.aboveLower v = true ↔
    ∀ l, i.lower = some l → v.compare l = .gt ∨ v.compare l = .eq ∧ i.lowerInclusive = true := by
  unfold aboveLower
  cases i.lower with
  | none => simp
  | some l => cases hcompare : v.compare l <;> simp [hcompare]

/-- A version is below the upper end if it is lower than that bound, or equal to it where it is included. -/
theorem belowUpper_iff {i : Interval} {v : Version} : i.belowUpper v = true ↔
    ∀ u, i.upper = some u → v.compare u = .lt ∨ v.compare u = .eq ∧ i.upperInclusive = true := by
  unfold belowUpper
  cases i.upper with
  | none => simp
  | some u => cases hcompare : v.compare u <;> simp [hcompare]

theorem contains_iff {i : Interval} {v : Version} : i.contains v = true ↔ i.Holds v := by
  unfold contains Holds
  rw [Bool.and_eq_true, aboveLower_iff, belowUpper_iff]

instance (i : Interval) (v : Version) : Decidable (i.Holds v) :=
  decidable_of_iff _ contains_iff

/-- A version in an interval is at most as high as its upper bound. -/
theorem Holds.isLE_upper {i : Interval} {v u : Version} (h : i.Holds v) (hu : i.upper = some u) :
    (v.compare u).isLE = true := by
  rcases h.2 u hu with hlt | ⟨heq, -⟩
  · rw [hlt]
    rfl
  · rw [heq]
    rfl

/-- A version in an interval is at least as high as its lower bound. -/
theorem Holds.lower_isLE {i : Interval} {v l : Version} (h : i.Holds v) (hl : i.lower = some l) :
    (l.compare v).isLE = true := by
  have hswap : l.compare v = (v.compare l).swap := Std.OrientedCmp.eq_swap
  rw [hswap]
  rcases h.1 l hl with hgt | ⟨heq, -⟩
  · rw [hgt]
    rfl
  · rw [heq]
    rfl

/-- An interval begins at a version: it holds it, and so does its lower bound. -/
def BeginsAt (i : Interval) (v : Version) : Prop :=
  i.Holds v ∧ ∃ l, i.lower = some l ∧ v.compare l = .eq

/-- An interval ends at a version. -/
def EndsAt (i : Interval) (v : Version) : Prop :=
  i.Holds v ∧ ∃ u, i.upper = some u ∧ v.compare u = .eq

/-- The upper bound is not below the lower one. -/
def Upright (i : Interval) : Prop :=
  ∀ l u, i.lower = some l → i.upper = some u → u.before l = false

instance (i : Interval) : Decidable i.Upright :=
  decidable_of_iff (∀ l ∈ i.lower, ∀ u ∈ i.upper, u.before l = false)
    ⟨fun h l u hl hu => h l hl u hu, fun h l hl u hu => h l u hl hu⟩

/-- The second interval does not begin below the upper bound of the first one. -/
def Precedes (i j : Interval) : Prop :=
  ∀ u, i.upper = some u → ∃ l, j.lower = some l ∧ l.before u = false

/-- This is what is checked when the second interval is read behind the first one. -/
theorem overlaps_eq_false_iff {i j : Interval} : VersionRange.overlaps i.upper j = false ↔ i.Precedes j := by
  unfold VersionRange.overlaps Precedes
  cases i.upper with
  | none => simp
  | some u =>
    cases j.lower with
    | none => simp
    | some l => simp

instance (i j : Interval) : Decidable (i.Precedes j) :=
  decidable_of_iff _ overlaps_eq_false_iff

/-- The first interval ends and the second one begins, and not below. -/
def Apart (i j : Interval) : Prop :=
  ∃ u l, i.upper = some u ∧ j.lower = some l ∧ (u.compare l).isLE = true

/-- The bounds of an interval that are not missing. -/
def bounds (i : Interval) : List Version :=
  i.lower.toList ++ i.upper.toList

theorem mem_bounds_of_lower {i : Interval} {l : Version} (h : i.lower = some l) : l ∈ i.bounds := by
  unfold bounds
  simp [h]

theorem mem_bounds_of_upper {i : Interval} {u : Version} (h : i.upper = some u) : u ∈ i.bounds := by
  unfold bounds
  simp [h]

/-- Intervals that are apart have a version in common only where they touch. -/
theorem Apart.touch {i j : Interval} {v : Version} (h : i.Apart j)
    (htrans : Version.TransOn (v :: (i.bounds ++ j.bounds))) (hi : i.Holds v) (hj : j.Holds v) :
    i.EndsAt v ∧ j.BeginsAt v := by
  obtain ⟨u, l, hu, hl, hul⟩ := h
  have hmemv : v ∈ v :: (i.bounds ++ j.bounds) := List.mem_cons_self
  have hmemu : u ∈ v :: (i.bounds ++ j.bounds) :=
    List.mem_cons_of_mem v (List.mem_append_left _ (mem_bounds_of_upper hu))
  have hmeml : l ∈ v :: (i.bounds ++ j.bounds) :=
    List.mem_cons_of_mem v (List.mem_append_right _ (mem_bounds_of_lower hl))
  -- the version is at most the upper bound, this at most the lower bound, and this at most the version
  have hvu := hi.isLE_upper hu
  have hlv := hj.lower_isLE hl
  have huv := htrans u hmemu l hmeml v hmemv hul hlv
  have hvl := htrans v hmemv u hmemu l hmeml hvu hul
  exact ⟨⟨hi, u, hu, Version.compare_eq_of_isLE hvu huv⟩, ⟨hj, l, hl, Version.compare_eq_of_isLE hvl hlv⟩⟩

end Interval

open VersionAudit.Interval

/-! ## Intervals in order -/

/-- Intervals in ascending order: none is reversed, and where one has an upper bound, the next one does not begin
below it. -/
structure WellOrdered (parts : List Interval) : Prop where
  upright : ∀ i ∈ parts, i.Upright
  chained : parts.IsChain Precedes

instance (parts : List Interval) : Decidable (WellOrdered parts) :=
  decidable_of_iff ((∀ i ∈ parts, i.Upright) ∧ parts.IsChain Precedes) ⟨fun h => ⟨h.1, h.2⟩, fun h => ⟨h.1, h.2⟩⟩

namespace WellOrdered

variable {i j : Interval} {parts : List Interval}

theorem nil : WellOrdered [] := by
  constructor
  · intro i hi
    cases hi
  · exact List.IsChain.nil

/-- An upright interval may go in front of those that begin above it. -/
theorem cons (hi : i.Upright) (h : WellOrdered parts) (hnext : ∀ j, parts.head? = some j → i.Precedes j) :
    WellOrdered (i :: parts) := by
  constructor
  · exact List.forall_mem_cons.2 ⟨hi, h.upright⟩
  · cases parts with
    | nil => exact List.IsChain.singleton i
    | cons j parts => exact List.isChain_cons_cons.2 ⟨hnext j rfl, h.chained⟩

theorem tail (h : WellOrdered (i :: parts)) : WellOrdered parts := by
  constructor
  · exact (List.forall_mem_cons.1 h.upright).2
  · exact h.chained.of_cons

theorem precedes (h : WellOrdered (i :: j :: parts)) : i.Precedes j :=
  (List.isChain_cons_cons.1 h.chained).1

/-- Where no upper bound is missing on the way, an interval ends before any later one begins. -/
theorem apart_of_mem (h : WellOrdered (i :: parts)) (hbounded : ∀ k ∈ (i :: parts).dropLast, k.upper.isSome = true)
    (htrans : Version.TransOn ((i :: parts).flatMap bounds)) : ∀ j ∈ parts, i.Apart j := by
  -- step by step: an upper bound is not above the next lower one, and this not above its own upper one
  induction parts generalizing i with
  | nil =>
    intro j hj
    cases hj
  | cons k parts ih =>
    rw [List.dropLast_cons_cons, List.forall_mem_cons] at hbounded
    obtain ⟨u, hu⟩ := Option.isSome_iff_exists.1 hbounded.1
    obtain ⟨l, hl, hnot⟩ := h.precedes u hu
    have hul : (u.compare l).isLE = true := Version.before_eq_false_iff.1 hnot
    intro j hj
    rcases List.mem_cons.1 hj with rfl | hj
    · exact ⟨u, l, hu, hl, hul⟩
    · -- the next interval is apart from the later one, and its lower bound is not above its upper bound
      have hsub : (k :: parts).flatMap bounds ⊆ (i :: k :: parts).flatMap bounds := by
        exact List.subset_append_right i.bounds _
      obtain ⟨u', l', hu', hl', hul'⟩ := ih h.tail hbounded.2 (htrans.mono hsub) j hj
      have hlu' : (l.compare u').isLE = true :=
        Version.before_eq_false_iff.1 (h.upright k (by simp) l u' hl hu')
      have hmem : ∀ {m : Interval} {w : Version}, m ∈ i :: k :: parts → w ∈ m.bounds →
          w ∈ (i :: k :: parts).flatMap bounds := fun hm hw => List.mem_flatMap.2 ⟨_, hm, hw⟩
      have hmemu := hmem (m := i) (by simp) (mem_bounds_of_upper hu)
      have hmeml := hmem (m := k) (by simp) (mem_bounds_of_lower hl)
      have hmemu' := hmem (m := k) (by simp) (mem_bounds_of_upper hu')
      have hmeml' := hmem (m := j) (by simp [hj]) (mem_bounds_of_lower hl')
      have huu' := htrans u hmemu l hmeml u' hmemu' hul hlu'
      exact ⟨u, l', hu, hl', htrans u hmemu u' hmemu' l' hmeml' huu' hul'⟩

/-- Not only neighbours are apart, but any two intervals, if only the last one is unbounded above and the order is
transitive on the bounds. -/
theorem pairwise_apart (h : WellOrdered parts) (hbounded : ∀ k ∈ parts.dropLast, k.upper.isSome = true)
    (htrans : Version.TransOn (parts.flatMap bounds)) : parts.Pairwise Apart := by
  induction parts with
  | nil => exact List.Pairwise.nil
  | cons i parts ih =>
    have hrest : ∀ k ∈ parts.dropLast, k.upper.isSome = true := by
      intro k hk
      cases parts with
      | nil => cases hk
      | cons j parts => exact hbounded k (List.mem_cons_of_mem i hk)
    have hsub : parts.flatMap bounds ⊆ (i :: parts).flatMap bounds := by
      rw [List.flatMap_cons]
      exact List.subset_append_right _ _
    exact List.pairwise_cons.2 ⟨h.apart_of_mem hbounded htrans, ih h.tail hrest (htrans.mono hsub)⟩

end WellOrdered

namespace VersionRange

/-! ## Reading -/

/-- An interval is read only if its upper bound is not below its lower one. -/
theorem upright_of_readInterval {cs : List Char} {i : Interval} (h : readInterval cs = .ok i) : i.Upright := by
  unfold readInterval at h
  dsimp only at h
  intro l u hl hu
  -- without a comma both bounds are the one version
  split at h
  · split at h
    · obtain rfl := Except.ok.inj h
      obtain rfl := Option.some.inj hl
      obtain rfl := Option.some.inj hu
      exact Version.before_self_eq_false _
    · cases h
  · split at h
    · rename_i hlower hupper
      split at h
      · cases h
      · rename_i hnot
        obtain rfl := Except.ok.inj h
        rw [hlower] at hl
        rw [hupper] at hu
        obtain rfl := Option.some.inj hl
        obtain rfl := Option.some.inj hu
        simpa using hnot
    · rename_i hmissing
      obtain rfl := Except.ok.inj h
      exact (hmissing l u hl hu).elim

/-- Intervals are read in ascending order, the first one not below the upper bound before it. -/
theorem wellOrdered_of_readIntervals {spec : String} {fuel : Nat} {previous : Option Version} {cs rest : List Char}
    {parts : List Interval} (h : readIntervals spec fuel previous cs = .ok (parts, rest)) :
    WellOrdered parts ∧ ∀ i, parts.head? = some i → overlaps previous i = false := by
  -- the bound that was read last is what the next interval is compared with
  induction fuel generalizing previous cs parts with
  | zero =>
    obtain ⟨rfl, -⟩ := Prod.mk.inj (Except.ok.inj h)
    refine ⟨WellOrdered.nil, ?_⟩
    intro i hi
    cases hi
  | succ fuel ih =>
    rcases readIntervals_ok h with ⟨-, -, rfl, -⟩ | ⟨front, behind, interval, more, -, hinterval, hnot, rfl, hmore⟩
    · refine ⟨WellOrdered.nil, ?_⟩
      intro i hi
      cases hi
    · rcases ih hmore with ⟨hordered, hnext⟩
      constructor
      · refine WellOrdered.cons (upright_of_readInterval hinterval) hordered ?_
        intro j hj
        exact overlaps_eq_false_iff.1 (hnext j hj)
      · intro i hi
        obtain rfl := Option.some.inj hi
        exact hnot

/-- The intervals of an accepted set are in order. -/
theorem wellOrdered_intervals {spec : String} {range : VersionRange} (h : read spec = .ok range)
    (hrange : range.isRange = true) : WellOrdered range.intervals := by
  obtain ⟨-, parts, rest, hparts, ⟨-, rfl⟩ | ⟨-, -, rfl⟩⟩ := read_ok h
  · exact (wellOrdered_of_readIntervals hparts).1
  · cases hrange

/-! ## Overlaps -/

/-- At most one element has a property just if no two have it. -/
theorem countP_le_one_iff_pairwise {α : Type} {p : α → Bool} {xs : List α} :
    xs.countP p ≤ 1 ↔ xs.Pairwise fun a b => ¬ (p a = true ∧ p b = true) := by
  induction xs with
  | nil => simp
  | cons x xs ih =>
    rw [List.pairwise_cons, ← ih, List.countP_cons]
    by_cases hx : p x = true
    · have hnone : xs.countP p = 0 ↔ ∀ y ∈ xs, ¬ (p x = true ∧ p y = true) := by
        simp [List.countP_eq_zero, hx]
      rw [if_pos hx, ← hnone]
      omega
    · simp [hx]

/-- If no interval but the last is unbounded above, and the order is transitive on the bounds and a version, then at most
one interval of an accepted set holds the version, unless one of them ends at it and a later one begins at it. -/
theorem countP_contains_le_one_iff {spec : String} {range : VersionRange} {v : Version} (hread : read spec = .ok range)
    (hrange : range.isRange = true) (hbounded : ∀ i ∈ range.intervals.dropLast, i.upper.isSome = true)
    (htrans : Version.TransOn (v :: range.intervals.flatMap bounds)) :
    range.intervals.countP (·.contains v) ≤ 1 ↔
      range.intervals.Pairwise fun i j => ¬ (i.EndsAt v ∧ j.BeginsAt v) := by
  have hordered := wellOrdered_intervals hread hrange
  have hapart : range.intervals.Pairwise Apart :=
    hordered.pairwise_apart hbounded (htrans.mono (List.subset_cons_self _ _))
  rw [countP_le_one_iff_pairwise]
  constructor
  -- two intervals that meet in the version both hold it
  · intro hone
    refine hone.imp ?_
    rintro i j hnot ⟨hi, hj⟩
    exact hnot ⟨contains_iff.2 hi.1, contains_iff.2 hj.1⟩
  · -- intervals that are apart have only a common end in common
    intro htouch
    refine (hapart.and htouch).imp_of_mem ?_
    rintro i j hi hj ⟨hij, hnot⟩ ⟨hvi, hvj⟩
    have hsub : v :: (i.bounds ++ j.bounds) ⊆ v :: range.intervals.flatMap bounds := by
      refine List.cons_subset_cons v (List.append_subset.2 ⟨?_, ?_⟩)
      · exact fun w hw => List.mem_flatMap.2 ⟨i, hi, hw⟩
      · exact fun w hw => List.mem_flatMap.2 ⟨j, hj, hw⟩
    exact hnot (hij.touch (htrans.mono hsub) (contains_iff.1 hvi) (contains_iff.1 hvj))

/-- A set with a version in the middle of one of its intervals. -/
theorem countP_contains_le_one_iff_within :
    ∃ range, read "(,1.0],[1.2,2.0],[3.0,)" = .ok range ∧ range.isRange = true ∧
      (∀ i ∈ range.intervals.dropLast, i.upper.isSome = true) ∧
      Version.TransOn (⟨"1.5"⟩ :: range.intervals.flatMap bounds) ∧
      range.intervals.Pairwise fun i j => ¬ (i.EndsAt ⟨"1.5"⟩ ∧ j.BeginsAt ⟨"1.5"⟩) := by
  have hread : read "(,1.0],[1.2,2.0],[3.0,)" = .ok ⟨"(,1.0],[1.2,2.0],[3.0,)", .intervals
      [⟨none, false, some ⟨"1.0"⟩, true⟩, ⟨some ⟨"1.2"⟩, true, some ⟨"2.0"⟩, true⟩,
        ⟨some ⟨"3.0"⟩, true, none, false⟩]⟩ := rfl
  refine ⟨_, hread, rfl, by decide +kernel, by decide +kernel, ?_⟩
  exact (countP_contains_le_one_iff hread rfl (by decide +kernel) (by decide +kernel)).1 (by decide +kernel)

/-- Behind an interval without an upper bound nothing is checked. -/
theorem not_countP_contains_le_one :
    ¬ ∀ (spec : String) (range : VersionRange) (v : Version), read spec = .ok range → range.isRange = true →
      range.intervals.countP (·.contains v) ≤ 1 := by
  intro h
  have htwo := h "[1,),[2,3]" _ ⟨"2.5"⟩ rfl rfl
  exact absurd htwo (by decide +kernel)

end VersionRange

end VersionAudit
