import VersionAudit.Proofs.Version.Canonical
import VersionAudit.Proofs.Version.Equality
import VersionAudit.Proofs.Version.Order

/-!
# Where equality and order agree

Versions are equal if their canonical texts are, and in order neither comes first if their rows of items compare as
the same. Both hold of the same items, but each of the two also lets pass what the other one sees.

1. `Trimmed`: normal rows have nothing at the end of a level that does not count.
2. `Prolonged`: the order takes a row for the same as one that is longer by a level which begins with nothing that
   counts. `compare_eq_iff`: it takes no other rows for the same.
3. `Confused`: rows that are the same in one way and differ in the other.
4. `Version.beq_iff_compare_iff`: equality and order agree unless the items are confused.
-/

namespace VersionAudit

namespace Items

/-! ## Normal rows -/

/-- No level of the row ends with a zero or a release, or leads to an empty level. -/
def Trimmed : Items → Prop
  | .done => True
  | .number value rest => (value = 0 → rest.atEnd = false) ∧ rest.Trimmed
  | .word text rest => (text = "" → rest.atEnd = false) ∧ rest.Trimmed
  | .nested inner => inner ≠ .done ∧ inner.Trimmed

/-- A normal row is trimmed. -/
theorem trimmed_normal (x : Items) : x.normal.Trimmed := by
  -- each item is kept only if it counts, or if something on its level does
  induction x with
  | done => trivial
  | number value rest ih =>
    unfold normal consNumber
    split
    · exact ih
    · rename_i hcounts
      refine ⟨?_, ih⟩
      intro hzero
      by_contra hend
      exact hcounts ⟨hzero, by simpa using hend⟩
  | word text rest ih =>
    unfold normal consWord
    split
    · exact ih
    · rename_i hcounts
      refine ⟨?_, ih⟩
      intro hrelease
      by_contra hend
      exact hcounts ⟨hrelease, by simpa using hend⟩
  | nested inner ih =>
    unfold normal nest
    split
    · trivial
    · rename_i hinner
      exact ⟨hinner, ih⟩

/-- What follows the head of a trimmed row is trimmed. -/
theorem Trimmed.tail {x r : Items} {h : Head} (hx : x.Trimmed) (hhead : x.head? = some (h, r)) : r.Trimmed := by
  cases x with
  | done => cases hhead
  | number value rest =>
    cases hhead
    exact hx.2
  | word text rest =>
    cases hhead
    exact hx.2
  | nested inner =>
    cases hhead
    exact hx.2

/-! ## Rows that compare as the same -/

/-- The second row is the first one with one level more at its end, and the first item of that level is the same as
nothing. -/
inductive Prolonged : Items → Items → Prop
  | ended {inner : Items} (blank : inner.compareFirst = .eq) : Prolonged .done (.nested inner)
  | onward {x y r s : Items} {h : Head} (hx : x.head? = some (h, r)) (hy : y.head? = some (h, s))
      (tail : Prolonged r s) : Prolonged x y

/-- Words of the same rank are the same. -/
theorem wordRank_injective {s t : String} (h : wordRank s = wordRank t) : s = t := by
  have hplace : ∀ (text : String) (i : Nat), knownWords.idxOf? text = some i →
      i < knownWords.length ∧ knownWords[i]? = some text := by
    intro text i hi
    rw [List.idxOf?, List.findIdx?_eq_some_iff_getElem] at hi
    obtain ⟨hlt, heq, -⟩ := hi
    rw [beq_iff_eq] at heq
    exact ⟨hlt, by rw [List.getElem?_eq_getElem hlt, heq]⟩
  unfold wordRank at h
  -- a known word has its place for a rank, and an unknown one stands behind all known ones with its text
  cases hs : knownWords.idxOf? s with
  | none =>
    rw [hs] at h
    cases ht : knownWords.idxOf? t with
    | none =>
      rw [ht] at h
      exact congrArg Prod.snd h
    | some j =>
      rw [ht] at h
      have hlt := (hplace t j ht).1
      have hj : knownWords.length = j := congrArg Prod.fst h
      omega
  | some i =>
    rw [hs] at h
    cases ht : knownWords.idxOf? t with
    | none =>
      rw [ht] at h
      have hlt := (hplace s i hs).1
      have hi : i = knownWords.length := congrArg Prod.fst h
      omega
    | some j =>
      rw [ht] at h
      obtain rfl : i = j := congrArg Prod.fst h
      exact Option.some.inj ((hplace s i hs).2.symm.trans (hplace t i ht).2)

/-- A row is its head and what follows. -/
theorem head?_injective {x y r : Items} {h : Head} (hx : x.head? = some (h, r)) (hy : y.head? = some (h, r)) :
    x = y := by
  -- the kinds of item have different heads
  cases x <;> cases y <;> simp only [head?, Option.some.injEq, Prod.mk.injEq, reduceCtorEq] at hx hy
  · obtain ⟨rfl, rfl⟩ := hx
    obtain ⟨hvalue, rfl⟩ := hy
    rw [Head.number.inj hvalue]
  · obtain ⟨rfl, rfl⟩ := hx
    cases hy.1
  · obtain ⟨rfl, rfl⟩ := hx
    cases hy.1
  · obtain ⟨rfl, rfl⟩ := hx
    cases hy.1
  · obtain ⟨rfl, rfl⟩ := hx
    obtain ⟨htext, rfl⟩ := hy
    rw [wordRank_injective (Head.word.inj htext)]
  · obtain ⟨rfl, rfl⟩ := hx
    cases hy.1
  · obtain ⟨rfl, rfl⟩ := hx
    cases hy.1
  · obtain ⟨rfl, rfl⟩ := hx
    cases hy.1
  · rw [hx.2, hy.2]

/-- Heads that compare as equal are the same. -/
theorem Head.eq_of_compare {h k : Head} (heq : h.compare k = .eq) : h = k := by
  cases h <;> cases k <;> simp only [Head.compare, reduceCtorEq] at heq
  · rw [eq_of_compareRank heq]
  · rfl
  · rw [Std.LawfulEqOrd.eq_of_compare heq]

theorem Head.compare_self (h : Head) : h.compare h = .eq :=
  Std.ReflCmp.compare_self

/-- Only the release itself ranks with the release. -/
theorem compareRank_releaseRank {text : String} :
    compareRank (wordRank text) releaseRank = .eq ↔ text = "" := by
  constructor
  · intro h
    have hrank : wordRank text = wordRank "" := eq_of_compareRank h
    exact wordRank_injective hrank
  · rintro rfl
    decide

/-- A trimmed row that is the same as nothing has no numbers and words before its first deeper level. -/
theorem Trimmed.atEnd_of_compareNothing {x : Items} (hx : x.Trimmed) (h : x.compareNothing = .eq) :
    x.atEnd = true := by
  induction x with
  | done => rfl
  | number value rest ih =>
    unfold compareNothing at h
    split at h
    -- a zero at the end of its level would have been trimmed
    · rename_i hzero
      have hrest := hx.1 hzero
      rw [ih hx.2 h] at hrest
      cases hrest
    · cases h
  | word text rest ih =>
    unfold compareNothing at h
    rw [Ordering.then_eq_eq] at h
    have hrest := hx.1 (compareRank_releaseRank.1 h.1)
    rw [ih hx.2 h.2] at hrest
    cases hrest
  | nested inner => rfl

/-- A trimmed row is the same as nothing if it has ended, or is one level that begins like nothing. -/
theorem Trimmed.compareNothing_eq_iff {x : Items} (hx : x.Trimmed) :
    x.compareNothing = .eq ↔ x = .done ∨ Prolonged .done x := by
  constructor
  · intro h
    have hend := hx.atEnd_of_compareNothing h
    cases x with
    | done => exact .inl rfl
    | number value rest => cases hend
    | word text rest => cases hend
    | nested inner => exact .inr (.ended h)
  · rintro (rfl | h)
    · rfl
    · cases h with
      | ended blank => exact blank
      | onward hx _ _ => cases hx

theorem not_prolonged_done (x : Items) : ¬ Prolonged x .done := by
  intro h
  cases h with
  | onward _ hy _ => cases hy

/-- Which trimmed rows the order takes for the same. -/
theorem compare_eq_iff {x y : Items} (hx : x.Trimmed) (hy : y.Trimmed) :
    x.compare y = .eq ↔ x = y ∨ Prolonged x y ∨ Prolonged y x := by
  -- by the heads, since the order compares head by head
  induction x using head_induction generalizing y with
  | done =>
    rw [done_compare, Ordering.swap_eq_eq, hy.compareNothing_eq_iff]
    have hnot := not_prolonged_done y
    constructor
    · rintro (rfl | h)
      · exact .inl rfl
      · exact .inr (.inl h)
    · rintro (rfl | h | h)
      · exact .inl rfl
      · exact .inr h
      · exact absurd h hnot
  | step x h r hhead ih =>
    rcases eq_done_or_head? y with rfl | ⟨k, s, hheady⟩
    · rw [compare_done, hx.compareNothing_eq_iff]
      have hnot := not_prolonged_done x
      constructor
      · rintro (rfl | hlonger)
        · exact .inl rfl
        · exact .inr (.inr hlonger)
      · rintro (rfl | hlonger | hlonger)
        · exact .inl rfl
        · exact absurd hlonger hnot
        · exact .inr hlonger
    -- both rows go on, by the same head if they are the same
    · rw [compare_of_head? hhead hheady, Ordering.then_eq_eq, ih (hx.tail hhead) (hy.tail hheady)]
      constructor
      · rintro ⟨hhk, hrest⟩
        obtain rfl := Head.eq_of_compare hhk
        rcases hrest with rfl | hlonger | hlonger
        · exact .inl (head?_injective hhead hheady)
        · exact .inr (.inl (.onward hhead hheady hlonger))
        · exact .inr (.inr (.onward hheady hhead hlonger))
      · -- the rows go on by the same head, since both have one
        rintro (rfl | hlonger | hlonger)
        · rw [hhead, Option.some.injEq, Prod.mk.injEq] at hheady
          rcases hheady with ⟨rfl, rfl⟩
          exact ⟨h.compare_self, .inl rfl⟩
        · cases hlonger with
          | ended _ => cases hhead
          | onward hx' hy' tail =>
            rw [hhead, Option.some.injEq, Prod.mk.injEq] at hx'
            rw [hheady, Option.some.injEq, Prod.mk.injEq] at hy'
            rcases hx' with ⟨rfl, rfl⟩
            rcases hy' with ⟨rfl, rfl⟩
            exact ⟨k.compare_self, .inr (.inl tail)⟩
        · cases hlonger with
          | ended _ => cases hheady
          | onward hy' hx' tail =>
            rw [hhead, Option.some.injEq, Prod.mk.injEq] at hx'
            rw [hheady, Option.some.injEq, Prod.mk.injEq] at hy'
            rcases hx' with ⟨rfl, rfl⟩
            rcases hy' with ⟨rfl, rfl⟩
            exact ⟨k.compare_self, .inr (.inr tail)⟩

/-! ## Agreement -/

/-- A trimmed row is written as something, unless it has ended. -/
theorem Trimmed.chars_ne_nil {x : Items} (hx : x.Trimmed) (hne : x ≠ .done) (begun : Bool) : x.chars begun ≠ [] := by
  induction x generalizing begun with
  | done => exact absurd rfl hne
  | number value rest => simp [chars, Nat.toDigits_ne_nil]
  | word text rest ih =>
    by_cases hrelease : text = ""
    -- a release is not written, but something follows it
    · have hrest : rest ≠ .done := by
        rintro rfl
        have hend := hx.1 hrelease
        cases hend
      have hih := ih hx.2 hrest (begun || text != "")
      unfold chars
      simp [hih]
    · unfold chars
      simp [hrelease]
  | nested inner ih =>
    have hih := ih hx.2 hx.1 false
    unfold chars
    simp [hih]

/-- Rows with the same head are written alike up to what follows. -/
theorem chars_of_head? {x y r s : Items} {h : Head} (hx : x.head? = some (h, r)) (hy : y.head? = some (h, s))
    (begun : Bool) : ∃ written next, x.chars begun = written ++ r.chars next ∧ y.chars begun = written ++ s.chars next := by
  -- the second row begins with the same item, of which there is one for each head
  cases x with
  | done => cases hx
  | number value rest =>
    obtain rfl : y = .number value s := by
      cases hx
      exact head?_injective hy rfl
    cases hx
    cases hy
    exact ⟨(if begun then ['.'] else []) ++ Nat.toDigits 10 value, true, by simp [chars], by simp [chars]⟩
  | word text rest =>
    obtain rfl : y = .word text s := by
      cases hx
      exact head?_injective hy rfl
    cases hx
    cases hy
    exact ⟨(if begun then ['.'] else []) ++ text.toList, begun || text != "", by simp [chars], by simp [chars]⟩
  | nested inner =>
    obtain rfl : y = .nested s := by
      cases hx
      exact head?_injective hy rfl
    cases hx
    cases hy
    exact ⟨if begun then ['-'] else [], false, rfl, rfl⟩

/-- The longer row has the longer text. -/
theorem Prolonged.chars_ne {x y : Items} (h : Prolonged x y) (hy : y.Trimmed) (begun : Bool) :
    x.chars begun ≠ y.chars begun := by
  induction h generalizing begun with
  | ended _ => exact fun heq => hy.chars_ne_nil (by simp) begun heq.symm
  | onward hheadx hheady _ ih =>
    rcases chars_of_head? hheadx hheady begun with ⟨written, next, hxs, hys⟩
    rw [hxs, hys]
    intro heq
    exact ih (hy.tail hheady) next (List.append_cancel_left heq)

/-- Rows that the order takes for the same but the canonical text tells apart, or that differ only in what leaves no
trace in the text. -/
def Confused (x y : Items) : Prop :=
  Prolonged x y ∨ Prolonged y x ∨ (x ≠ y ∧ x.shown false = y.shown false)

/-- The order and the canonical text agree on trimmed rows unless they are confused. -/
theorem canonical_iff_compare_iff {x y : Items} (hx : x.Trimmed) (hy : y.Trimmed) (hxs : x.Spelled)
    (hys : y.Spelled) : (x.canonical = y.canonical ↔ x.compare y = .eq) ↔ ¬ x.Confused y := by
  have hlonger : ∀ {a b : Items}, b.Trimmed → a.Spelled → b.Spelled → Prolonged a b →
      a.canonical ≠ b.canonical := by
    intro a b hb has hbs h heq
    apply h.chars_ne hb false
    rw [← toList_canonical, heq, toList_canonical]
  rw [compare_eq_iff hx hy]
  unfold Confused
  constructor
  -- each way of being confused separates the text from the order
  · rintro hagree (h | h | ⟨hne, hshown⟩)
    · exact hlonger hy hxs hys h (hagree.2 (.inr (.inl h)))
    · exact hlonger hx hys hxs h (hagree.2 (.inr (.inr h))).symm
    · rcases hagree.1 ((canonical_eq_iff hxs hys).2 hshown) with heq | h | h
      · exact hne heq
      · exact hlonger hy hxs hys h ((canonical_eq_iff hxs hys).2 hshown)
      · exact hlonger hx hys hxs h ((canonical_eq_iff hxs hys).2 hshown).symm
  · intro hclear
    constructor
    · intro heq
      by_contra hne
      refine hclear (.inr (.inr ⟨?_, (canonical_eq_iff hxs hys).1 heq⟩))
      exact fun hsame => hne (.inl hsame)
    · rintro (rfl | h | h)
      · rfl
      · exact absurd (.inl h) hclear
      · exact absurd (.inr (.inl h)) hclear

end Items

/-! ## Versions -/

theorem Version.trimmed_items (v : Version) : v.items.Trimmed :=
  Items.trimmed_normal _

/-- Of two versions, one comes before the other or they are equal, and only one of the three, if and only if equality
agrees with the order. -/
theorem Version.one_of_three_iff (a b : Version) :
    (a.before b).toNat + (a == b).toNat + (b.before a).toNat = 1 ↔ ((a == b) = true ↔ a.compare b = .eq) := by
  have hswap : b.compare a = (a.compare b).swap := Std.OrientedCmp.eq_swap
  unfold before
  rw [hswap]
  cases a.compare b <;> cases (a == b) <;> decide

/-- Equality and order agree on two versions, and so exactly one of less, equal and greater holds of them, if and only
if their items are not confused. -/
theorem Version.beq_iff_compare_iff (a b : Version) :
    (((a == b) = true ↔ a.compare b = .eq) ↔ ¬ a.items.Confused b.items) ∧
      ((a.before b).toNat + (a == b).toNat + (b.before a).toNat = 1 ↔ ¬ a.items.Confused b.items) := by
  have hagree : ((a == b) = true ↔ a.compare b = .eq) ↔ ¬ a.items.Confused b.items := by
    rw [beq_iff]
    exact Items.canonical_iff_compare_iff a.trimmed_items b.trimmed_items a.spelled_items b.spelled_items
  exact ⟨hagree, (one_of_three_iff a b).trans hagree⟩

/-- A hyphen behind a leading zero is not written, but the order sees it. And the order does not look behind a zero
that begins a level, but the canonical text shows what is there. -/
theorem Version.not_beq_iff_compare :
    ¬ (((⟨"0-1"⟩ : Version) == ⟨"1"⟩) = true ↔ Version.compare ⟨"0-1"⟩ ⟨"1"⟩ = .eq) ∧
      ¬ (((⟨"1"⟩ : Version) == ⟨"1-0.1"⟩) = true ↔ Version.compare ⟨"1"⟩ ⟨"1-0.1"⟩ = .eq) := by
  constructor
  · intro h
    have hequal : ((⟨"0-1"⟩ : Version) == ⟨"1"⟩) = true := by decide +kernel
    have hbefore : Version.compare ⟨"0-1"⟩ ⟨"1"⟩ = .lt := by decide +kernel
    rw [h.1 hequal] at hbefore
    cases hbefore
  · intro h
    have hsame : Version.compare ⟨"1"⟩ ⟨"1-0.1"⟩ = .eq := by decide +kernel
    have hdiffer : ((⟨"1"⟩ : Version) == ⟨"1-0.1"⟩) = false := by decide +kernel
    rw [h.2 hsame] at hdiffer
    cases hdiffer

end VersionAudit
