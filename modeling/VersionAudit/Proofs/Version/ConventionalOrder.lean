import VersionAudit.Proofs.Version.Agreement
import VersionAudit.Proofs.Version.Reading

/-!
# The order of conventional versions

For conventional versions the order of items is the order of their normal forms, and equality agrees with it. In
general neither is so: rows can fork, and equality can differ from the order. The items of a normal form have at most
two levels below the numbers, and each of them begins with something that counts, so none of this happens.

1. `Items.ofTail_compare`, `Items.numbered_compare`: the rows of two normal forms are compared as their parts are.
2. `Items.ofNormalForm_injective`: normal forms can be read off what their rows show.
3. `Conventional.compare_eq_normal_compare`: what this says of versions.
-/

namespace VersionAudit

namespace Items

variable {t u : Option (String × Nat)} {as bs : List Nat}

/-! ## Words and their numbers -/

open NormalForm (place)

/-- What comes first decides, if it differs. -/
theorem then_of_ne_eq {first : Ordering} (h : first ≠ .eq) (later : Ordering) : first.then later = first := by
  cases first with
  | lt => rfl
  | gt => rfl
  | eq => exact absurd rfl h

/-- The rank of a word is its place, with the text of the word in the last place. -/
theorem wordRank_eq {q : String} (hq : q ≠ "") : wordRank q = (place q, if place q = 7 then q else "") := by
  by_cases hknown : q ∈ knownWords
  -- a known word is one of six, each with a place of its own
  · unfold knownWords at hknown
    simp only [List.mem_cons, List.not_mem_nil, or_false, hq, false_or] at hknown
    rcases hknown with rfl | rfl | rfl | rfl | rfl | rfl
    all_goals decide
  -- all other words share the last place, and are told apart by their texts
  · have hrank : wordRank q = (7, q) := by
      unfold wordRank
      rw [List.idxOf?_eq_none_iff.2 hknown]
      rfl
    have hplace : place q = 7 := by
      unfold place
      split
      all_goals first
        | rfl
        | exact absurd (by decide) hknown
    rw [hrank, hplace, if_pos rfl]

/-- Words are ordered by their places, and by their texts in the same place. -/
theorem compareRank_wordRank {q r : String} (hq : q ≠ "") (hr : r ≠ "") :
    compareRank (wordRank q) (wordRank r) = (Ord.compare (place q) (place r)).then (Ord.compare q r) := by
  by_cases hplace : place q = place r
  · have hsame : Ord.compare (place q) (place r) = .eq := Nat.compare_eq_eq.2 hplace
    rw [hsame]
    by_cases hlast : place q = 7
    · rw [wordRank_eq hq, wordRank_eq hr]
      unfold compareRank
      simp only [← hplace, hlast, if_true, Std.ReflCmp.compare_self]
    · -- a place other than the last one has one word
      have hrank : wordRank q = wordRank r := by
        rw [wordRank_eq hq, wordRank_eq hr, ← hplace, if_neg hlast, if_neg hlast]
      obtain rfl := wordRank_injective hrank
      have hranks : compareRank (wordRank q) (wordRank q) = .eq := Std.ReflCmp.compare_self
      have htexts : Ord.compare q q = .eq := Std.ReflCmp.compare_self
      rw [hranks, htexts]
      rfl
  · have hdiffer : Ord.compare (place q) (place r) ≠ .eq := fun h => hplace (Nat.compare_eq_eq.1 h)
    rw [wordRank_eq hq, wordRank_eq hr, then_of_ne_eq hdiffer]
    exact then_of_ne_eq hdiffer _

/-- A word against the release. -/
theorem compareRank_release {q : String} (hq : q ≠ "") :
    compareRank (wordRank q) releaseRank = Ord.compare (place q) 5 := by
  have hdiffer : Ord.compare (place q) 5 ≠ .eq := fun h => NormalForm.place_ne_release q (Nat.compare_eq_eq.1 h)
  rw [wordRank_eq hq]
  exact then_of_ne_eq hdiffer _

/-- The numbers of two words. -/
theorem ofNumber_compare (m n : Nat) : (ofNumber m).compare (ofNumber n) = Ord.compare m n := by
  -- zero is not written, and compared with nothing only a written number counts
  have habove : ∀ k : Nat, k ≠ 0 → (nested (number k done)).compareNothing = .gt := by
    intro k hk
    show (if k = 0 then Ordering.eq else .gt) = .gt
    exact if_neg hk
  unfold ofNumber
  by_cases hm : m = 0
  · rw [if_pos hm, hm, done_compare]
    by_cases hn : n = 0
    · rw [if_pos hn, hn]
      rfl
    · rw [if_neg hn, habove n hn]
      exact (Nat.compare_eq_lt.2 (Nat.pos_of_ne_zero hn)).symm
  · rw [if_neg hm]
    by_cases hn : n = 0
    · rw [if_pos hn, hn, compare_done, habove m hm]
      exact (Nat.compare_eq_gt.2 (Nat.pos_of_ne_zero hm)).symm
    · rw [if_neg hn]
      show (Ord.compare m n).then .eq = _
      rw [Ordering.then_eq]

/-- The rows of two tails are compared as the tails are. -/
theorem ofTail_compare (ht : ∀ q m, t = some (q, m) → q ≠ "") (hu : ∀ q m, u = some (q, m) → q ≠ "") :
    (ofTail t).compare (ofTail u) = NormalForm.compareTails t u := by
  cases t with
  | none =>
    cases u with
    | none => rfl
    | some u =>
      obtain ⟨r, n⟩ := u
      -- no word has the place of a release, so that the place decides
      have hdiffer : Ord.compare 5 (place r) ≠ .eq :=
        fun h => NormalForm.place_ne_release r (Nat.compare_eq_eq.1 h).symm
      have hrow : (ofTail (some (r, n))).compareNothing = compareRank (wordRank r) releaseRank := rfl
      have hswap : (Ord.compare (place r) 5).swap = Ord.compare 5 (place r) := Std.OrientedCmp.eq_swap.symm
      rw [show ofTail none = .done from rfl, done_compare, hrow, compareRank_release (hu r n rfl), hswap]
      exact (then_of_ne_eq hdiffer _).symm
  | some t =>
    obtain ⟨q, m⟩ := t
    cases u with
    | none =>
      have hdiffer : Ord.compare (place q) 5 ≠ .eq := fun h => NormalForm.place_ne_release q (Nat.compare_eq_eq.1 h)
      have hrow : (ofTail (some (q, m))).compareNothing = compareRank (wordRank q) releaseRank := rfl
      rw [show ofTail none = .done from rfl, compare_done, hrow, compareRank_release (ht q m rfl)]
      exact (then_of_ne_eq hdiffer _).symm
    | some u =>
      obtain ⟨r, n⟩ := u
      have hrows : (ofTail (some (q, m))).compare (ofTail (some (r, n))) =
          (compareRank (wordRank q) (wordRank r)).then ((ofNumber m).compare (ofNumber n)) := rfl
      rw [hrows, compareRank_wordRank (ht q m rfl) (hu r n rfl), ofNumber_compare, Ordering.then_assoc]
      rfl

/-! ## Numbers -/

/-- A tail is below a row that goes on with numbers, the last of which is not zero. -/
theorem ofTail_compare_numbered {b : Nat} (h : (b :: bs).getLast? ≠ some 0) (rest : Items) :
    (ofTail t).compare (numbered (b :: bs) rest) = .lt := by
  -- some number of the row is not zero, at the latest its last one
  have habove : (numbered (b :: bs) rest).compareNothing = .gt := by
    induction bs generalizing b with
    | nil =>
      have hb : b ≠ 0 := by
        rintro rfl
        exact h rfl
      show (if b = 0 then rest.compareNothing else .gt) = .gt
      exact if_neg hb
    | cons c cs ih =>
      have hrest : (numbered (c :: cs) rest).compareNothing = .gt := ih (NormalForm.trimmed_tail h)
      show (if b = 0 then (numbered (c :: cs) rest).compareNothing else .gt) = .gt
      rw [hrest, ite_self]
  cases t with
  | none =>
    rw [show ofTail none = .done from rfl, done_compare, habove]
    rfl
  | some t => rfl

/-- Rows of numbers are compared number by number, and then by what follows. -/
theorem numbered_compare (ha : as.getLast? ≠ some 0) (hb : bs.getLast? ≠ some 0) :
    (numbered as (ofTail t)).compare (numbered bs (ofTail u)) =
      (NormalForm.compareNumbers as bs).then ((ofTail t).compare (ofTail u)) := by
  induction as generalizing bs with
  | nil =>
    cases bs with
    | nil => rfl
    | cons b bs =>
      rw [NormalForm.compareNumbers_nil_of_trimmed hb]
      -- only the other row goes on with numbers, which decides at once
      exact ofTail_compare_numbered hb (ofTail u)
  | cons a as ih =>
    cases bs with
    | nil =>
      rw [NormalForm.compareNumbers_swap, NormalForm.compareNumbers_nil_of_trimmed ha, ← compare_swap]
      have hbelow : (ofTail u).compare (numbered (a :: as) (ofTail t)) = .lt := ofTail_compare_numbered ha (ofTail t)
      exact congrArg Ordering.swap hbelow
    | cons b bs =>
      -- both rows go on with numbers
      have hrest := ih (NormalForm.trimmed_tail ha) (NormalForm.trimmed_tail hb)
      show (Ord.compare a b).then ((numbered as (ofTail t)).compare (numbered bs (ofTail u))) = _
      rw [hrest, ← Ordering.then_assoc]
      rfl

/-- The rows of two normal forms are compared as the normal forms are. -/
theorem ofNormalForm_compare (x y : NormalForm) : (ofNormalForm x).compare (ofNormalForm y) = x.compare y := by
  unfold ofNormalForm NormalForm.compare
  rw [numbered_compare x.numbers_trimmed y.numbers_trimmed, ofTail_compare x.word_ne y.word_ne]

/-! ## What the rows show -/

/-- Behind something written everything of a tail is shown. -/
theorem shown_ofTail (ht : ∀ q m, t = some (q, m) → q ≠ "") : (ofTail t).shown true = ofTail t := by
  cases t with
  | none => rfl
  | some t =>
    obtain ⟨q, m⟩ := t
    have hnumber : (ofNumber m).shown true = ofNumber m := by
      unfold ofNumber
      split
      · rfl
      · rfl
    have hword : (false || q != "") = true := bne_iff_ne.2 (ht q m rfl)
    show nested (if (false || q != "") = true then word q ((ofNumber m).shown true) else _) = _
    rw [if_pos hword, hnumber]
    rfl

/-- Where nothing is written yet, the level of a tail is not shown. -/
theorem nest_shown_ofTail (ht : ∀ q m, t = some (q, m) → q ≠ "") : nest ((ofTail t).shown false) = ofTail t := by
  have hshown := shown_ofTail ht
  cases t with
  | none => rfl
  | some t =>
    obtain ⟨q, m⟩ := t
    have hword : (word q (ofNumber m)).shown false = word q (ofNumber m) := Items.nested.inj hshown
    show nest ((word q (ofNumber m)).shown false) = nested (word q (ofNumber m))
    rw [hword]
    rfl

/-- Numbers are shown, and so is everything behind them. -/
theorem shown_numbered (ht : ∀ q m, t = some (q, m) → q ≠ "") (as : List Nat) :
    (numbered as (ofTail t)).shown true = numbered as (ofTail t) := by
  induction as with
  | nil => exact shown_ofTail ht
  | cons a as ih => exact congrArg (number a) ih

theorem ofTail_injective (h : ofTail t = ofTail u) : t = u := by
  cases t with
  | none =>
    cases u with
    | none => rfl
    | some u => cases h
  | some t =>
    cases u with
    | none => cases h
    | some u =>
      have hlevel := Items.word.inj (Items.nested.inj h)
      -- numbers are only known by their rows, which are equal if they compare as equal
      have hnumber : Ord.compare t.2 u.2 = .eq := by
        rw [← ofNumber_compare, hlevel.2, ofNumber_compare]
        exact Std.ReflCmp.compare_self
      have hpair : t = u := Prod.ext hlevel.1 (Nat.compare_eq_eq.1 hnumber)
      rw [hpair]

/-- Rows of numbers can be read off, as what follows them does not begin with a number. -/
theorem numbered_injective (h : numbered as (ofTail t) = numbered bs (ofTail u)) : as = bs ∧ t = u := by
  have hstart : ∀ (s : Option (String × Nat)) (n : Nat) (rest : Items), ofTail s ≠ .number n rest := by
    intro s n rest hs
    cases s with
    | none => cases hs
    | some s => cases hs
  induction as generalizing bs with
  | nil =>
    cases bs with
    | nil => exact ⟨rfl, ofTail_injective h⟩
    | cons b bs => exact absurd h (hstart t _ _)
  | cons a as ih =>
    cases bs with
    | nil => exact absurd h.symm (hstart u _ _)
    | cons b bs =>
      have hnumber := Items.number.inj h
      rcases ih hnumber.2 with ⟨hnumbers, htail⟩
      rw [hnumber.1, hnumbers]
      exact ⟨rfl, htail⟩

/-- Normal forms can be read off what their rows show. -/
theorem ofNormalForm_injective {x y : NormalForm} (h : (ofNormalForm x).shown false = (ofNormalForm y).shown false) :
    x = y := by
  unfold ofNormalForm at h
  have hx := nest_shown_ofTail x.word_ne
  have hy := nest_shown_ofTail y.word_ne
  cases hxs : x.numbers with
  | nil =>
    cases hys : y.numbers with
    | nil =>
      rw [hxs, hys] at h
      have htail : ofTail x.tail = ofTail y.tail := by
        rw [← hx, ← hy]
        exact congrArg nest h
      exact NormalForm.ext (hxs.trans hys.symm) (ofTail_injective htail)
    | cons b bs =>
      -- a tail alone does not show a number
      rw [hxs, hys] at h
      rw [show (ofTail x.tail).shown false = _ from h] at hx
      cases htail : x.tail with
      | none =>
        rw [htail] at hx
        cases hx
      | some t =>
        rw [htail] at hx
        cases hx
  | cons a as =>
    cases hys : y.numbers with
    | nil =>
      rw [hxs, hys] at h
      rw [show (ofTail y.tail).shown false = _ from h.symm] at hy
      cases htail : y.tail with
      | none =>
        rw [htail] at hy
        cases hy
      | some t =>
        rw [htail] at hy
        cases hy
    | cons b bs =>
      rw [hxs, hys] at h
      have hrows : numbered (a :: as) (ofTail x.tail) = numbered (b :: bs) (ofTail y.tail) := by
        rw [← shown_numbered x.word_ne, ← shown_numbered y.word_ne]
        exact h
      rcases numbered_injective hrows with ⟨hnumbers, htail⟩
      exact NormalForm.ext (hxs.trans (hnumbers.trans hys.symm)) htail

end Items

/-! ## Versions -/

namespace Conventional

/-- Conventional versions are compared as their normal forms are. -/
theorem compare_version (a b : Conventional) : a.version.compare b.version = a.normal.compare b.normal := by
  unfold Version.compare
  rw [a.items_version, b.items_version, Items.ofNormalForm_compare]

/-- Conventional versions have the same canonical text if and only if they have the same normal form. -/
theorem canonical_version_iff {a b : Conventional} :
    a.version.canonical = b.version.canonical ↔ a.normal = b.normal := by
  have hshown : a.version.canonical = b.version.canonical ↔ a.version.items.shown false = b.version.items.shown false :=
    Items.canonical_eq_iff a.version.spelled_items b.version.spelled_items
  rw [hshown, a.items_version, b.items_version]
  constructor
  · intro h
    exact Items.ofNormalForm_injective h
  · intro h
    rw [h]

/-- The order of conventional versions is that of their normal forms, which is linear, and versions are equal, have
the same canonical text and have the same place in the order if and only if their normal forms are equal. -/
theorem compare_eq_normal_compare (a b : Conventional) :
    a.version.compare b.version = a.normal.compare b.normal ∧
      ((a.version == b.version) = true ↔ a.normal = b.normal) ∧
      (a.version.canonical = b.version.canonical ↔ a.normal = b.normal) ∧
      (a.version.compare b.version = .eq ↔ a.normal = b.normal) ∧
      (a.version.before b.version).toNat + (a.version == b.version).toNat + (b.version.before a.version).toNat = 1 ∧
      ∀ c : Conventional, (a.version.compare b.version).isLE → (b.version.compare c.version).isLE →
        (a.version.compare c.version).isLE := by
  have hequal : (a.version == b.version) = true ↔ a.normal = b.normal := by
    rw [Version.beq_iff]
    exact canonical_version_iff
  have hsame : a.version.compare b.version = .eq ↔ a.normal = b.normal := by
    rw [compare_version]
    exact NormalForm.compare_eq_iff
  refine ⟨compare_version a b, hequal, canonical_version_iff, hsame, ?_, ?_⟩
  -- just one of the three holds, as equality is equality in the order
  · rw [Version.one_of_three_iff]
    exact hequal.trans hsame.symm
  · intro c hab hbc
    rw [compare_version] at hab hbc ⊢
    exact Std.TransCmp.isLE_trans hab hbc

end Conventional

end VersionAudit
