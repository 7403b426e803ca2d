import Mathlib.Data.List.DropRight
import VersionAudit.Version.Basic

/-!
# Conventional versions

Most versions are numerals with points between them, possibly followed by a hyphen, a word and a numeral. For these
the order can be told without a tree of items.

1. `Conventional`: such a version, part by part, and its text.
2. `NormalForm`: what counts of it, i.e. the numbers without zeros at the end, and the word and number behind them.
3. `NormalForm.compare`: the order of normal forms, which is linear. Numbers come first, missing ones being zeros. Then
   words, where prereleases are below the release and all other words above it.
-/

namespace VersionAudit

/-! ## Parts -/

/-- A decimal numeral. -/
structure Numeral where
  chars : List Char
  nonempty : chars ≠ []
  digits : ∀ c ∈ chars, c.isDigit = true

namespace Numeral

/-- The number that a numeral writes. -/
def value (n : Numeral) : Nat :=
  Nat.ofDigitChars 10 n.chars 0

end Numeral

/-- A word in the letters from `a` to `z`, capital or small. -/
structure Word where
  chars : List Char
  nonempty : chars ≠ []
  letters : ∀ c ∈ chars, c.isAlpha = true

namespace Word

/-- The word in small letters. -/
def small (w : Word) : String :=
  String.ofList (w.chars.map Char.toLower)

/-- The words for a release. -/
def releases : List String :=
  ["ga", "final", "release"]

end Word

/-- What stands behind the hyphen: a word, and possibly a numeral. The word for a release has no numeral or a zero. -/
structure Suffix where
  word : Word
  numeral : Option Numeral
  release : word.small ∈ Word.releases → ∀ n, numeral = some n → n.value = 0

namespace Suffix

/-- The number of a suffix, zero if it has no numeral. -/
def number (s : Suffix) : Nat :=
  (s.numeral.map Numeral.value).getD 0

/-- The word under its usual name. A single letter stands for a whole word if there is a numeral. -/
def name (s : Suffix) : String :=
  if s.word.small = "cr" then "rc"
  else if s.numeral.isSome ∧ s.word.small = "a" then "alpha"
  else if s.numeral.isSome ∧ s.word.small = "b" then "beta"
  else if s.numeral.isSome ∧ s.word.small = "m" then "milestone"
  else s.word.small

/-- The name of a suffix is not empty. -/
theorem name_ne (s : Suffix) : s.name ≠ "" := by
  have hsmall : s.word.small ≠ "" := by
    unfold Word.small
    simp [String.ofList_eq_empty_iff, s.word.nonempty]
  unfold name
  split_ifs
  · decide
  · decide
  · decide
  · decide
  · exact hsmall

def chars (s : Suffix) : List Char :=
  s.word.chars ++ (s.numeral.map Numeral.chars).getD []

end Suffix

/-- A conventional version. -/
structure Conventional where
  first : Numeral
  more : List Numeral
  suffix : Option Suffix

namespace Conventional

def chars (c : Conventional) : List Char :=
  c.first.chars ++ c.more.flatMap ('.' :: ·.chars) ++ (c.suffix.map ('-' :: ·.chars)).getD []

/-- The version that is written in this way. -/
def version (c : Conventional) : Version :=
  ⟨String.ofList c.chars⟩

/-- The numbers of a version. -/
def values (c : Conventional) : List Nat :=
  (c.first :: c.more).map Numeral.value

end Conventional

/-! ## Normal forms -/

/-- What counts of a conventional version: its numbers, the last of which is not zero, and the word behind them with
its number. A release has no word. -/
@[ext]
structure NormalForm where
  numbers : List Nat
  tail : Option (String × Nat)
  numbers_trimmed : numbers.getLast? ≠ some 0
  word_ne : ∀ q m, tail = some (q, m) → q ≠ ""

namespace NormalForm

/-- The place of a word relative to the release, which has place 5. All words without a place of their own have the
last one. -/
def place (q : String) : Nat :=
  match q with
  | "alpha" => 0
  | "beta" => 1
  | "milestone" => 2
  | "rc" => 3
  | "snapshot" => 4
  | "sp" => 6
  | _ => 7

/-- What tails are compared by: the place, the text of the word, and the number. -/
def tailKey : Option (String × Nat) → Nat × String × Nat
  | none => (5, "", 0)
  | some (q, m) => (place q, q, m)

/-- The order of tails. -/
def compareTails : Option (String × Nat) → Option (String × Nat) → Ordering :=
  compareLex (compareOn fun t => (tailKey t).1)
    (compareLex (compareOn fun t => (tailKey t).2.1) (compareOn fun t => (tailKey t).2.2))

/-- The order of rows of numbers, from the first number on. Behind the end of a row there are zeros. -/
def compareNumbers : List Nat → List Nat → Ordering
  | [], bs => bs.foldr (fun b later => (Ord.compare 0 b).then later) .eq
  | a :: as, bs => (Ord.compare a (bs.headD 0)).then (compareNumbers as bs.tail)

/-- The order of normal forms. -/
protected def compare (x y : NormalForm) : Ordering :=
  (compareNumbers x.numbers y.numbers).then (compareTails x.tail y.tail)

end NormalForm

/-- The normal form of a version. -/
def Conventional.normal (c : Conventional) : NormalForm where
  numbers := c.values.rdropWhile (· == 0)
  tail := (c.suffix.filter fun s => s.word.small ∉ Word.releases).map fun s => (s.name, s.number)
  numbers_trimmed := by
    intro h
    obtain ⟨init, hinit⟩ := List.getLast?_eq_some_iff.1 h
    have hne : c.values.rdropWhile (· == 0) ≠ [] := by simp [hinit]
    apply List.rdropWhile_last_not (· == 0) c.values hne
    simp [hinit]
  word_ne := by
    intro q m h
    obtain ⟨s, -, hs⟩ := Option.map_eq_some_iff.1 h
    obtain rfl := congrArg Prod.fst hs
    exact s.name_ne

/-! ## The order of normal forms -/

namespace NormalForm

instance : Std.TransCmp compareTails :=
  inferInstanceAs (Std.TransCmp (compareLex _ (compareLex _ _)))

/-- Rows of numbers are compared number by number. -/
theorem compareNumbers_eq (as bs : List Nat) :
    compareNumbers as bs = (Ord.compare (as.headD 0) (bs.headD 0)).then (compareNumbers as.tail bs.tail) := by
  cases as <;> cases bs <;> rfl

/-- Two comparisons one after the other are transitive if both are. -/
theorem isLE_then_trans {α : Type} {compare : α → α → Ordering} [Std.TransCmp compare] {a b c : α}
    {later later' later'' : Ordering} (htrans : later.isLE → later'.isLE → later''.isLE)
    (hab : ((compare a b).then later).isLE) (hbc : ((compare b c).then later').isLE) :
    ((compare a c).then later'').isLE := by
  rw [Ordering.isLE_then_iff_or] at hab hbc ⊢
  rcases hab with hlt | ⟨heq, hab⟩
  · left
    rcases hbc with hlt' | ⟨heq', -⟩
    · exact Std.TransCmp.lt_trans hlt hlt'
    · exact Std.TransCmp.lt_of_lt_of_eq hlt heq'
  · rcases hbc with hlt' | ⟨heq', hbc⟩
    · left
      exact Std.TransCmp.lt_of_eq_of_lt heq hlt'
    · right
      exact ⟨Std.TransCmp.eq_trans heq heq', htrans hab hbc⟩

/-- Induction on the numbers of several rows at once. -/
theorem compareNumbers_isLE_trans (n : Nat) : ∀ {as bs cs : List Nat}, as.length ≤ n → bs.length ≤ n → cs.length ≤ n →
    (compareNumbers as bs).isLE → (compareNumbers bs cs).isLE → (compareNumbers as cs).isLE := by
  induction n with
  | zero =>
    intro as bs cs ha hb hc _ _
    obtain rfl := List.length_eq_zero_iff.1 (Nat.le_zero.1 ha)
    obtain rfl := List.length_eq_zero_iff.1 (Nat.le_zero.1 hc)
    rfl
  | succ n ih =>
    intro as bs cs ha hb hc
    -- heads first, with zeros for what is missing, then the tails
    rw [compareNumbers_eq as bs, compareNumbers_eq bs cs, compareNumbers_eq as cs]
    apply isLE_then_trans
    apply ih
    · rw [List.length_tail]
      omega
    · rw [List.length_tail]
      omega
    · rw [List.length_tail]
      omega

/-- The order of two rows of numbers swaps with them. -/
theorem compareNumbers_swap (as bs : List Nat) : compareNumbers as bs = (compareNumbers bs as).swap := by
  induction as generalizing bs with
  | nil =>
    induction bs with
    | nil => rfl
    | cons b bs ih =>
      have hhead : Ord.compare 0 b = (Ord.compare b 0).swap := Std.OrientedCmp.eq_swap
      rw [compareNumbers_eq, compareNumbers_eq (b :: bs), Ordering.swap_then]
      exact congrArg₂ Ordering.then hhead ih
  | cons a as ih =>
    have hhead : Ord.compare a (bs.headD 0) = (Ord.compare (bs.headD 0) a).swap := Std.OrientedCmp.eq_swap
    rw [compareNumbers_eq, compareNumbers_eq bs, Ordering.swap_then]
    exact congrArg₂ Ordering.then hhead (ih bs.tail)

instance : Std.TransCmp compareNumbers where
  eq_swap {as bs} := compareNumbers_swap as bs
  isLE_trans {as bs cs} := by
    apply compareNumbers_isLE_trans (max as.length (max bs.length cs.length))
    · omega
    · omega
    · omega

instance : Std.TransCmp NormalForm.compare where
  eq_swap {x y} := by
    unfold NormalForm.compare
    rw [Ordering.swap_then, ← Std.OrientedCmp.eq_swap, ← Std.OrientedCmp.eq_swap]
  isLE_trans {x y z} := by
    unfold NormalForm.compare
    apply isLE_then_trans
    exact Std.TransCmp.isLE_trans

/-- Behind its first number a row without a zero at its end has none there either. -/
theorem trimmed_tail {a : Nat} {as : List Nat} (h : (a :: as).getLast? ≠ some 0) : as.getLast? ≠ some 0 := by
  rw [List.getLast?_cons] at h
  intro hzero
  rw [hzero] at h
  exact h rfl

/-- A row that goes on to a number other than zero is above one that has ended. -/
theorem compareNumbers_nil_of_trimmed {b : Nat} {bs : List Nat} (h : (b :: bs).getLast? ≠ some 0) :
    compareNumbers [] (b :: bs) = .lt := by
  -- some number at or behind the front is not zero, as the last one is not
  induction bs generalizing b with
  | nil =>
    have hb : 0 < b := by
      rw [Nat.pos_iff_ne_zero]
      rintro rfl
      exact h rfl
    show (Ord.compare 0 b).then .eq = .lt
    rw [Nat.compare_eq_lt.2 hb]
    rfl
  | cons c cs ih =>
    have hrest := ih (trimmed_tail h)
    show (Ord.compare 0 b).then (compareNumbers [] (c :: cs)) = .lt
    rw [hrest, Ordering.then_eq_lt]
    rcases Nat.eq_zero_or_pos b with rfl | hb
    · exact .inr ⟨rfl, rfl⟩
    · exact .inl (Nat.compare_eq_lt.2 hb)

/-- Rows without zeros at their ends are the same only if they are equal. -/
theorem eq_of_compareNumbers {as bs : List Nat} (ha : as.getLast? ≠ some 0) (hb : bs.getLast? ≠ some 0)
    (h : compareNumbers as bs = .eq) : as = bs := by
  induction as generalizing bs with
  | nil =>
    -- a row that goes on is above one that has ended
    cases bs with
    | nil => rfl
    | cons b bs =>
      rw [compareNumbers_nil_of_trimmed hb] at h
      cases h
  | cons a as ih =>
    cases bs with
    | nil =>
      rw [compareNumbers_swap, compareNumbers_nil_of_trimmed ha] at h
      cases h
    | cons b bs =>
      rw [compareNumbers_eq, Ordering.then_eq_eq] at h
      have hhead : a = b := Std.LawfulEqOrd.eq_of_compare h.1
      have hrest : as = bs := ih (trimmed_tail ha) (trimmed_tail hb) h.2
      rw [hhead, hrest]

theorem place_ne_release (q : String) : place q ≠ 5 := by
  unfold place
  split <;> decide

/-- Tails that compare as equal are the same. -/
theorem eq_of_compareTails {s t : Option (String × Nat)} (h : compareTails s t = .eq) : s = t := by
  unfold compareTails compareLex at h
  rw [Ordering.then_eq_eq, Ordering.then_eq_eq] at h
  rcases h with ⟨hplace, hword, hnumber⟩
  have hplace : (tailKey s).1 = (tailKey t).1 := Std.LawfulEqOrd.eq_of_compare hplace
  have hword : (tailKey s).2.1 = (tailKey t).2.1 := Std.LawfulEqOrd.eq_of_compare hword
  have hnumber : (tailKey s).2.2 = (tailKey t).2.2 := Std.LawfulEqOrd.eq_of_compare hnumber
  -- place, word and number agree, and only the release has the place of no tail
  cases s with
  | none =>
    cases t with
    | none => rfl
    | some t => exact absurd hplace.symm (place_ne_release t.1)
  | some s =>
    cases t with
    | none => exact absurd hplace (place_ne_release s.1)
    | some t =>
      have hpair : s = t := Prod.ext hword hnumber
      rw [hpair]

/-- Normal forms of the same place are equal. -/
theorem compare_eq_iff {x y : NormalForm} : x.compare y = .eq ↔ x = y := by
  constructor
  · intro h
    unfold NormalForm.compare at h
    rw [Ordering.then_eq_eq] at h
    exact NormalForm.ext (eq_of_compareNumbers x.numbers_trimmed y.numbers_trimmed h.1) (eq_of_compareTails h.2)
  · rintro rfl
    exact Std.ReflCmp.compare_self

end NormalForm

end VersionAudit
