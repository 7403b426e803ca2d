import VersionAudit.Proofs.Version.Components
import VersionAudit.Strategy.Basic

/-!
# Strategies on conventional versions

The strategies that compare components do so in the canonical texts of two versions. For conventional versions whose
numbers are not too many and not too large these are the numbers as they are written, missing ones being zeros, and the
word behind them with its number.

1. `chars_ofNormalForm`: the canonical text, with the word behind a hyphen (`qualifierChars`).
2. `Components.Show`: what the components of a canonical text are. `show_components`: they are that.
3. `qualifierText_inj`: the qualifier tells the word and its number.
4. `conventional_verdicts`: when each strategy accepts a combination.
-/

namespace VersionAudit

/-! ## Words and their numbers -/

/-- The words behind the numbers are written in letters. -/
def NormalForm.Lettered (tail : Option (String × Nat)) : Prop :=
  ∀ t, tail = some t → t.1 ≠ "" ∧ ∀ c ∈ t.1.toList, c.isAlpha = true

theorem isAlpha_toLower {c : Char} (h : c.isAlpha = true) : c.toLower.isAlpha = true := by
  have hall : ∀ n ∈ List.range 128, (Char.ofNat n).isAlpha = true → (Char.ofNat n).toLower.isAlpha = true := by
    decide +kernel
  exact Text.forall_ascii (P := fun c => c.isAlpha = true → c.toLower.isAlpha = true) hall (toNat_lt_of_isAlpha h) h

/-- The name of a suffix is made of letters. -/
theorem Suffix.isAlpha_name (s : Suffix) : ∀ c ∈ s.name.toList, c.isAlpha = true := by
  have hsmall : ∀ c ∈ s.word.small.toList, c.isAlpha = true := by
    intro c hc
    unfold Word.small at hc
    rw [String.toList_ofList, List.mem_map] at hc
    obtain ⟨d, hd, rfl⟩ := hc
    exact isAlpha_toLower (s.word.letters d hd)
  unfold name
  split_ifs
  · simp
  · simp
  · simp
  · simp
  · exact hsmall

/-- The tail of a conventional version begins with letters. -/
theorem Conventional.lettered_normal (c : Conventional) : NormalForm.Lettered c.normal.tail := by
  rintro ⟨q, m⟩ ht
  refine ⟨c.normal.word_ne q m ht, ?_⟩
  obtain ⟨s, -, hs⟩ := Option.map_eq_some_iff.1 ht
  obtain ⟨rfl, -⟩ := Prod.mk.inj hs
  exact s.isAlpha_name

/-- The number of a word, if it is not zero. -/
def numberPart (m : Nat) : Option (List Char) :=
  if m = 0 then none else some (Nat.toDigits 10 m)

/-- A word as it is written in a canonical text, with its number behind a hyphen. -/
def qualifierChars (t : String × Nat) : List Char :=
  t.1.toList ++ ((numberPart t.2).map ('-' :: ·)).getD []

theorem cut_qualifierChars {t : String × Nat} (h : ∀ c ∈ t.1.toList, c.isAlpha = true) :
    Text.cut '-' (qualifierChars t) = (t.1.toList, numberPart t.2) :=
  Text.cut_joined (fun hmem => absurd (h _ hmem) (by decide)) _

/-- A qualifier begins with a letter. -/
theorem exists_qualifierChars_eq_cons {t : String × Nat} (hne : t.1 ≠ "") (h : ∀ c ∈ t.1.toList, c.isAlpha = true) :
    ∃ c cs, qualifierChars t = c :: cs ∧ c.isAlpha = true := by
  obtain ⟨c, cs, hcs⟩ := List.exists_cons_of_ne_nil (mt String.toList_eq_nil_iff.1 hne)
  rw [hcs] at h
  unfold qualifierChars
  rw [hcs]
  exact ⟨c, _, rfl, h c (List.mem_cons_self ..)⟩

/-- Different numbers are written differently, no number being written for zero. -/
theorem numberPart_injective {m n : Nat} (h : numberPart m = numberPart n) : m = n := by
  unfold numberPart at h
  split_ifs at h with hm hn hn
  · rw [hm, hn]
  · exact Items.toDigits_injective (Option.some.inj h)

/-- The qualifier that a canonical text shows, empty for a release. -/
def qualifierText (tail : Option (String × Nat)) : String :=
  String.ofList ((tail.map qualifierChars).getD [])

/-- The qualifier tells the word and its number. -/
theorem qualifierText_inj {s t : Option (String × Nat)} (hs : NormalForm.Lettered s) (ht : NormalForm.Lettered t) :
    qualifierText s = qualifierText t ↔ s = t := by
  have hne : ∀ {t : String × Nat}, t.1 ≠ "" → qualifierChars t ≠ [] := by
    intro t ht hnil
    exact ht (String.toList_eq_nil_iff.1 (List.append_eq_nil_iff.1 hnil).1)
  refine ⟨fun h => ?_, congrArg _⟩
  have hchars : (s.map qualifierChars).getD [] = (t.map qualifierChars).getD [] := String.ofList_injective h
  cases s with
  | none =>
    cases t with
    | none => rfl
    | some t => exact absurd hchars.symm (hne (ht t rfl).1)
  | some s =>
    cases t with
    | none => exact absurd hchars (hne (hs s rfl).1)
    | some t =>
      -- a word has no hyphen, so the first one is that before the number
      have hcut := congrArg (Text.cut '-') (show qualifierChars s = qualifierChars t from hchars)
      rw [cut_qualifierChars (hs s rfl).2, cut_qualifierChars (ht t rfl).2] at hcut
      obtain ⟨hword, hnumber⟩ := Prod.mk.inj hcut
      exact congrArg some (Prod.ext (String.toList_injective hword) (numberPart_injective hnumber))

/-! ## The canonical text -/

namespace Items

/-- Behind something else each number is written with a point before it. -/
theorem chars_numbered_true (ns : List Nat) (rest : Items) :
    (numbered ns rest).chars true = (ns.map (Nat.toDigits 10)).flatMap ('.' :: ·) ++ rest.chars true := by
  induction ns with
  | nil => rfl
  | cons n ns ih =>
    show ['.'] ++ (Nat.toDigits 10 n ++ (numbered ns rest).chars true) = _
    rw [ih, List.map_cons, List.flatMap_cons, List.append_assoc]
    rfl

/-- Numbers stand in front of the canonical text. -/
theorem chars_numbered (n : Nat) (ns : List Nat) (rest : Items) :
    (numbered (n :: ns) rest).chars false = Components.numberChars n ns ++ rest.chars true := by
  show Nat.toDigits 10 n ++ (numbered ns rest).chars true = _
  rw [chars_numbered_true, ← List.append_assoc]
  rfl

/-- A number below a word is written with a hyphen before it, unless it is zero. -/
theorem chars_ofNumber (m : Nat) : (ofNumber m).chars true = ((numberPart m).map ('-' :: ·)).getD [] := by
  unfold ofNumber numberPart
  split
  · rfl
  · show ['-'] ++ (Nat.toDigits 10 m ++ []) = '-' :: Nat.toDigits 10 m
    rw [List.append_nil]
    rfl

/-- A word with its number is a qualifier. It stands behind a hyphen if there are numbers before it. -/
theorem chars_ofTail {tail : Option (String × Nat)} (h : NormalForm.Lettered tail) :
    (ofTail tail).chars false = (tail.map qualifierChars).getD [] ∧
      (ofTail tail).chars true = ((tail.map qualifierChars).map ('-' :: ·)).getD [] := by
  cases tail with
  | none => exact ⟨rfl, rfl⟩
  | some t =>
    have hbegun : (false || t.1 != "") = true := bne_iff_ne.2 (h t rfl).1
    have hword : (word t.1 (ofNumber t.2)).chars false = qualifierChars t := by
      unfold chars
      rw [hbegun, chars_ofNumber]
      rfl
    exact ⟨hword, congrArg ('-' :: ·) hword⟩

end Items

/-! ## Components -/

/-- What the components of a canonical text are: the numbers of a normal form, missing ones being zeros, and its
qualifier. -/
structure Components.Show (k : Components) (x : NormalForm) : Prop where
  major : k.major = x.numbers.getD 0 0
  minor : k.minor = x.numbers.getD 1 0
  incremental : k.incremental = x.numbers.getD 2 0
  qualifier : k.qualifier.getD "" = qualifierText x.tail

/-- The numbers of a normal form can be components: there are at most three, and none is too large. -/
structure NormalForm.HasComponents (x : NormalForm) : Prop where
  length : x.numbers.length ≤ 3
  limit : ∀ n ∈ x.numbers, n ≤ Components.limit

/-- Without numbers a canonical text is nothing but its qualifier. -/
theorem Components.ofChars_qualifier {tail : Option (String × Nat)} (h : NormalForm.Lettered tail) :
    ofChars ((tail.map qualifierChars).getD []) = { qualifier := some (qualifierText tail) } := by
  cases tail with
  | none => decide
  | some t =>
    obtain ⟨hne, hletters⟩ := h t rfl
    obtain ⟨c, cs, hcs, hc⟩ := exists_qualifierChars_eq_cons hne hletters
    -- before the hyphen there is nothing but the word
    have hpoint : '.' ∉ (Text.cut '-' (c :: cs)).1 := by
      rw [← hcs, cut_qualifierChars hletters]
      exact fun hmem => absurd (hletters _ hmem) (by decide)
    show ofChars (qualifierChars t) = { qualifier := some (String.ofList (qualifierChars t)) }
    rw [hcs, ofChars_word hc hpoint]

/-- The components read from the text of a normal form are those of the form. -/
theorem Components.show_ofChars {x : NormalForm} (htail : NormalForm.Lettered x.tail) (hx : x.HasComponents) :
    (ofChars ((Items.ofNormalForm x).chars false)).Show x := by
  obtain ⟨hfalse, htrue⟩ := Items.chars_ofTail htail
  obtain ⟨hlength, hlimit⟩ := hx
  have htrimmed := x.numbers_trimmed
  unfold Items.ofNormalForm
  cases hnumbers : x.numbers with
  | nil =>
    have hmissing : ∀ i, 0 = x.numbers.getD i 0 := by
      intro i
      rw [hnumbers]
      rfl
    show (ofChars ((Items.ofTail x.tail).chars false)).Show x
    rw [hfalse, ofChars_qualifier htail]
    exact ⟨hmissing 0, hmissing 1, hmissing 2, rfl⟩
  -- the numbers are read up to the qualifier, which begins with a letter
  | cons n ns =>
    rw [hnumbers] at hlength hlimit htrimmed
    have hback : ∀ cs, x.tail.map qualifierChars = some cs → ∃ c rest, cs = c :: rest ∧ c.isAlpha = true := by
      intro cs hcs
      obtain ⟨t, ht, rfl⟩ := Option.map_eq_some_iff.1 hcs
      exact exists_qualifierChars_eq_cons (htail t ht).1 (htail t ht).2
    rw [Items.chars_numbered, htrue, ofChars_numbers (Nat.le_of_succ_le_succ hlength) hlimit htrimmed hback]
    refine ⟨by rw [hnumbers]; rfl, by rw [hnumbers]; rfl, by rw [hnumbers]; rfl, ?_⟩
    cases x.tail with
    | none => rfl
    | some t => rfl

/-! ## Conventional versions -/

namespace Conventional

/-- A number of a version, zero if it is missing. -/
def component (c : Conventional) (i : Nat) : Nat :=
  c.values.getD i 0

/-- Zeros at the end are the same as missing numbers. -/
theorem getD_numbers_normal (c : Conventional) (i : Nat) : c.normal.numbers.getD i 0 = c.component i := by
  have hall : ∀ (vs : List Nat) (i : Nat), (vs.rdropWhile (· == 0)).getD i 0 = vs.getD i 0 := by
    intro vs
    induction vs with
    | nil => exact fun _ => rfl
    | cons v vs ih =>
      intro i
      rw [Items.rdropWhile_cons]
      split
      · -- a zero that is dropped was the last one, and all numbers behind it count as zeros
        rename_i hdropped
        obtain ⟨hrest, hv⟩ := hdropped
        rw [hrest] at ih
        cases i with
        | zero => exact (beq_iff_eq.1 hv).symm
        | succ i => exact ih i
      · cases i with
        | zero => rfl
        | succ i => exact ih i
  exact hall c.values i

/-- The components of a conventional version are those of its normal form. -/
theorem show_components {c : Conventional} (h : c.normal.HasComponents) :
    (Strategy.components c.version).Show c.normal := by
  have hchars : c.version.canonical.toList = (Items.ofNormalForm c.normal).chars false := by
    unfold Version.canonical
    rw [Items.toList_canonical, c.items_version]
  unfold Strategy.components Components.ofString
  rw [hchars]
  exact Components.show_ofChars c.lettered_normal h

end Conventional

/-- The strategies that compare components keep their rules on conventional versions. For versions with at most three
numbers, zeros at the end aside, none of which is too large for a component:

* The first strategy accepts the same major with a minor that is not smaller, if the qualifiers are the same.
* The second one accepts a major that is not smaller.
* The third one accepts a major that is not smaller if neither version has a third number and the qualifiers are the
  same.

Missing numbers count as zeros, and a qualifier is a word under its usual name with its number, zero if it has none. A
release has no qualifier. -/
theorem Strategy.conventional_verdicts {e r : Conventional} (he : e.normal.HasComponents) (hr : r.normal.HasComponents) :
    (apr.isCompatible e.version r.version = true ↔
      e.component 0 = r.component 0 ∧ e.component 1 ≤ r.component 1 ∧ e.normal.tail = r.normal.tail) ∧
    (singleDigit.isCompatible e.version r.version = true ↔ e.component 0 ≤ r.component 0) ∧
    (twoDigits.isCompatible e.version r.version = true ↔
      e.component 0 ≤ r.component 0 ∧ e.component 2 = 0 ∧ r.component 2 = 0 ∧ e.normal.tail = r.normal.tail) := by
  -- qualifiers are compared as texts, and each text is that of one tail
  have hqualifier : sameQualifier (components e.version) (components r.version) = true ↔ e.normal.tail = r.normal.tail := by
    unfold sameQualifier
    rw [beq_iff_eq, (e.show_components he).qualifier, (r.show_components hr).qualifier]
    exact qualifierText_inj e.lettered_normal r.lettered_normal
  obtain ⟨hemajor, heminor, heincremental, -⟩ := e.show_components he
  obtain ⟨hrmajor, hrminor, hrincremental, -⟩ := r.show_components hr
  rw [Conventional.getD_numbers_normal] at hemajor heminor heincremental hrmajor hrminor hrincremental
  refine ⟨?_, ?_, ?_⟩
  · unfold apr
    simp only [Bool.and_eq_true, beq_iff_eq, decide_eq_true_eq, hqualifier, hemajor, hrmajor, heminor, hrminor, and_assoc]
  · unfold singleDigit
    simp only [decide_eq_true_eq, hemajor, hrmajor]
  · unfold twoDigits
    simp only [Bool.and_eq_true, beq_iff_eq, decide_eq_true_eq, hqualifier, hemajor, hrmajor, heincremental,
      hrincremental, and_assoc]

/-! ## Two flavours of a library -/

namespace Flavours

def digit (c : Char) (h : c.isDigit = true) : Numeral where
  chars := [c]
  nonempty := List.cons_ne_nil c []
  digits := List.forall_mem_singleton.2 h

/-- The version `1.2.0-jre`. -/
def expected : Conventional where
  first := digit '1' rfl
  more := [digit '2' rfl, digit '0' rfl]
  suffix := some { word := ⟨"jre".toList, by decide, by simp⟩, numeral := none, release := by simp }

/-- The version `1.4-JRE`. -/
def resolved : Conventional where
  first := digit '1' rfl
  more := [digit '4' rfl]
  suffix := some { word := ⟨"JRE".toList, by decide, by simp⟩, numeral := none, release := by simp }

/-- The version `2-android`. -/
def other : Conventional where
  first := digit '2' rfl
  more := []
  suffix := some { word := ⟨"android".toList, by decide, by simp⟩, numeral := none, release := by simp }

/-- The same flavour with a greater minor is accepted, and another flavour only if the major is all that counts. -/
theorem conventional_verdicts_flavours :
    expected.version.text = "1.2.0-jre" ∧ resolved.version.text = "1.4-JRE" ∧ other.version.text = "2-android" ∧
    Strategy.apr.isCompatible expected.version resolved.version = true ∧
    Strategy.twoDigits.isCompatible expected.version resolved.version = true ∧
    Strategy.singleDigit.isCompatible expected.version other.version = true ∧
    ¬ Strategy.twoDigits.isCompatible expected.version other.version = true := by
  have hexpected : expected.normal.HasComponents := ⟨by decide +kernel, by decide +kernel⟩
  have hresolved : resolved.normal.HasComponents := ⟨by decide +kernel, by decide +kernel⟩
  have hother : other.normal.HasComponents := ⟨by decide +kernel, by decide +kernel⟩
  obtain ⟨hapr, -, htwo⟩ := Strategy.conventional_verdicts hexpected hresolved
  obtain ⟨-, hsingle, hthird⟩ := Strategy.conventional_verdicts hexpected hother
  refine ⟨by decide, by decide, by decide, hapr.2 (by decide +kernel), htwo.2 (by decide +kernel),
    hsingle.2 (by decide +kernel), fun h => ?_⟩
  exact absurd (hthird.1 h) (by decide +kernel)

end Flavours

end VersionAudit
