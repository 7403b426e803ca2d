import VersionAudit.Proofs.Version.ConventionalOrder

/-!
# The end of a version

A version can end at any depth and in the middle of an item, and what is written behind it is read from there. Still two
endings can be compared without the version in front of them: it is read as the same items in front of both, and the
same items make no difference that is not there already.

1. `Congruence`: relations of rows that are kept by the same items in front. `Congruence.readFrom_append`: if such a
   relation holds behind any run, it holds behind any text. Equality is one (`congruence_eq`), and so is a given order,
   as long as both rows go on in their level or both do not (`congruence_placed`).
2. `Padding`: separators, zeros and words for a release. `Version.items_padded`: behind a version they change nothing.
3. `Version.compare_withSuffix`: words are ordered behind any version as they are behind a number.
-/

namespace VersionAudit

namespace Items

/-! ## Behind a common front -/

/-- A relation of normal rows that is kept by an item in front of both and by a level around both. -/
structure Congruence (R : Items → Items → Prop) : Prop where
  number : ∀ (value : Nat) {x y : Items}, R x y → R (consNumber value x) (consNumber value y)
  word : ∀ (text : String) {x y : Items}, R x y → R (consWord text x) (consWord text y)
  level : ∀ {x y : Items}, R x y → R (nest x) (nest y)

namespace Congruence

variable {R : Items → Items → Prop} (hR : Congruence R) {x y : Items}

include hR

/-- A run is the same item in front of both. -/
theorem item (run : Run) (h : R x.normal y.normal) : R (run.item x).normal (run.item y).normal := by
  cases run with
  | empty => exact hR.number 0 h
  | digits rev => exact hR.number _ h
  | letters rev => exact hR.word _ h

/-- Induction on the text in front: a character either goes into the run or puts an item in front of what follows. -/
theorem readFrom_append {cs ds : List Char} (h : ∀ run, R (readFrom run cs).normal (readFrom run ds).normal)
    (front : List Char) (run : Run) :
    R (readFrom run (front ++ cs)).normal (readFrom run (front ++ ds)).normal := by
  induction front generalizing run with
  | nil => exact h run
  | cons c front ih =>
    have hlevel : ∀ run, R (nested (readFrom run (front ++ cs))).normal (nested (readFrom run (front ++ ds))).normal := by
      intro run
      apply hR.level
      exact ih run
    rw [List.cons_append, List.cons_append]
    rcases char_cases c with rfl | rfl | hdigit | hletter
    · rw [readFrom_point, readFrom_point]
      apply hR.item
      exact ih .empty
    · rw [readFrom_hyphen, readFrom_hyphen]
      apply hR.item
      exact hlevel .empty
    · rw [readFrom_digit hdigit, readFrom_digit hdigit]
      cases run with
      | empty => exact ih _
      | digits rev => exact ih _
      | letters rev =>
        -- behind a word a digit opens a level, as a letter does behind a number
        apply hR.word
        exact hlevel _
    · rw [readFrom_letter hletter, readFrom_letter hletter]
      cases run with
      | empty => exact ih _
      | letters rev => exact ih _
      | digits rev =>
        apply hR.number
        exact hlevel _

end Congruence

theorem congruence_eq : Congruence (· = ·) where
  number value _ _ h := congrArg (consNumber value) h
  word text _ _ h := congrArg (consWord text) h
  level h := congrArg nest h

/-- Two rows in the given order that both go on in their level, or both do not. -/
structure Placed (order : Ordering) (x y : Items) : Prop where
  atEnd_eq : x.atEnd = y.atEnd
  compare_eq : x.compare y = order

theorem nest_of_ne {x : Items} (h : x ≠ .done) : nest x = .nested x := by
  unfold nest
  split
  · contradiction
  · rfl

/-- A list ends its level whether or not it is kept. -/
theorem atEnd_nest (x : Items) : (nest x).atEnd = true := by
  unfold nest
  split
  · rfl
  · rfl

/-- Against nothing, a level is judged by its first item, and so is a level around that level. -/
theorem compareNothing_nest {x : Items} (h : x.atEnd = true) : (nest x).compareNothing = x.compareNothing := by
  cases x with
  | done => rfl
  | number value rest => cases h
  | word text rest => cases h
  | nested inner => rfl

/-- The order of two rows passes through all steps of reading as well. -/
theorem congruence_placed (order : Ordering) : Congruence (Placed order) where
  number value x y h := by
    have hfront : (number value x).compare (number value y) = order := by
      rw [compare_of_head? rfl rfl, Head.compare_self, h.compare_eq]
      rfl
    unfold consNumber
    rw [h.atEnd_eq]
    split
    · exact h
    · exact ⟨rfl, hfront⟩
  word text x y h := by
    have hfront : (word text x).compare (word text y) = order := by
      rw [compare_of_head? rfl rfl, Head.compare_self, h.compare_eq]
      rfl
    unfold consWord
    rw [h.atEnd_eq]
    split
    · exact h
    · exact ⟨rfl, hfront⟩
  level {x y} h := by
    constructor
    · rw [atEnd_nest, atEnd_nest]
    -- a row that has ended gets no level around it, so the level around the other row is compared with nothing
    by_cases hx : x = .done
    · have hy : y.atEnd = true := by
        rw [← h.atEnd_eq, hx]
        rfl
      rw [← h.compare_eq, hx, nest, done_compare, done_compare, compareNothing_nest hy]
    by_cases hy : y = .done
    · have hx : x.atEnd = true := by
        rw [h.atEnd_eq, hy]
        rfl
      rw [← h.compare_eq, hy, nest, compare_done, compare_done, compareNothing_nest hx]
    rw [nest_of_ne hx, nest_of_ne hy, compare_of_head? rfl rfl, Head.compare_self, h.compare_eq]
    rfl

/-- Where the version ends, a run is an item with nothing behind it. A separator at the end adds a zero, which does not
count. -/
theorem normal_readFrom_nil (run : Run) : (readFrom run []).normal = (run.item .done).normal := by
  cases run with
  | empty => rfl
  | digits rev => rfl
  | letters rev => rfl

end Items

/-! ## Zeros and releases -/

/-- What does not count behind a separator: nothing, a zero, or a word for a release. -/
inductive Padding.Body
  | nothing
  | zero (numeral : Numeral) (isZero : numeral.value = 0)
  | release (word : Word) (isRelease : word.small ∈ Word.releases)

/-- A separator and something behind it that does not count. -/
structure Padding where
  separator : Char
  body : Padding.Body
  separates : Items.isSeparator separator = true

def Padding.Body.chars : Padding.Body → List Char
  | .nothing => []
  | .zero numeral _ => numeral.chars
  | .release word _ => word.chars

def Padding.chars (p : Padding) : List Char :=
  p.separator :: p.body.chars

/-- A version with paddings behind it. -/
def Version.padded (v : Version) (ps : List Padding) : Version :=
  ⟨v.text ++ String.ofList (ps.flatMap Padding.chars)⟩

theorem Padding.Body.toNat_lt {b : Padding.Body} {c : Char} (h : c ∈ b.chars) : c.toNat < 128 := by
  cases b with
  | nothing => cases h
  | zero n _ => exact toNat_lt_of_isDigit (n.digits c h)
  | release w _ => exact toNat_lt_of_isAlpha (w.letters c h)

namespace Padding

theorem separator_cases (p : Padding) : p.separator = '.' ∨ p.separator = '-' := by
  have h := p.separates
  unfold Items.isSeparator at h
  simpa using h

/-- A padding is written in ASCII. -/
theorem toNat_lt {p : Padding} {c : Char} (h : c ∈ p.chars) : c.toNat < 128 := by
  rcases List.mem_cons.1 h with rfl | hc
  · rcases p.separator_cases with hpoint | hhyphen
    · rw [hpoint]
      decide
    · rw [hhyphen]
      decide
  · exact Body.toNat_lt hc

end Padding

namespace Items

/-- Behind a separator, something that does not count is read as a run that does not count. -/
theorem exists_run_body (b : Padding.Body) : ∃ run : Run, (run.item .done).normal = .done ∧
    ∀ rest, readFrom .empty (b.chars.map Char.toLower ++ rest) = readFrom run rest := by
  cases b with
  | nothing => exact ⟨.empty, rfl, fun rest => rfl⟩
  | zero n hzero =>
    have hvalue : Text.numeralValue n.chars.reverse.reverse = 0 := by
      rw [List.reverse_reverse, numeralValue_chars, hzero]
    refine ⟨.digits n.chars.reverse, ?_, fun rest => ?_⟩
    · simp only [Run.item, hvalue]
      rfl
    · have hsmall : (Padding.Body.zero n hzero).chars.map Char.toLower = n.chars := n.map_toLower
      rw [hsmall, readFrom_numeral]
  -- a release is lowered to letters that are known to mean nothing
  | release w hrelease =>
    have hne : w.chars.map Char.toLower ≠ [] := by simp [w.nonempty]
    have hletters : ∀ c ∈ w.chars.map Char.toLower, isLetter c = true := by
      intro c hc
      obtain ⟨d, hd, rfl⟩ := List.mem_map.1 hc
      exact isLetter_toLower (w.letters d hd)
    have hword : usualWord (String.ofList (w.chars.map Char.toLower).reverse.reverse) = "" := by
      rw [List.reverse_reverse]
      exact (word_of_release hrelease).1
    refine ⟨.letters (w.chars.map Char.toLower).reverse, ?_, fun rest => readFrom_word hne hletters rest⟩
    simp only [Run.item, hword]
    rfl

/-- In front of nothing that counts, a run is what it is at the end of a version. -/
theorem normal_item_of_normal {x : Items} (h : x.normal = .done) (run : Run) :
    (run.item x).normal = (readFrom run []).normal := by
  rw [normal_readFrom_nil]
  apply congruence_eq.item
  exact h

/-- Behind any run paddings are read as nothing. -/
theorem normal_readFrom_paddings (ps : List Padding) (run : Run) :
    (readFrom run ((ps.flatMap Padding.chars).map Char.toLower)).normal = (readFrom run []).normal := by
  induction ps generalizing run with
  | nil => rfl
  | cons p ps ih =>
    -- the later paddings count for nothing behind the run of the body, which does not count either
    obtain ⟨bodyRun, hblank, hbody⟩ := exists_run_body p.body
    have hinner : (readFrom .empty (p.body.chars.map Char.toLower ++
        (ps.flatMap Padding.chars).map Char.toLower)).normal = .done := by
      rw [hbody, ih, normal_readFrom_nil, hblank]
    have hlevel : (nested (readFrom .empty (p.body.chars.map Char.toLower ++
        (ps.flatMap Padding.chars).map Char.toLower))).normal = .done := by
      rw [normal, hinner, nest]
    rw [List.flatMap_cons, List.map_append, Padding.chars, List.map_cons, List.cons_append]
    rcases p.separator_cases with hpoint | hhyphen
    · rw [hpoint, show '.'.toLower = '.' from rfl, readFrom_point]
      exact normal_item_of_normal hinner run
    · rw [hhyphen, show '-'.toLower = '-' from rfl, readFrom_hyphen]
      exact normal_item_of_normal hlevel run

end Items

namespace Version

/-- The small letters of a padded version are those of the version and those of the paddings. -/
theorem lowerFrom_padded {v : Version} (hv : 'Σ' ∉ v.text.toList) (ps : List Padding) :
    Text.lowerFrom [] (v.padded ps).text.toList =
      Text.lowerFrom [] v.text.toList ++ (ps.flatMap Padding.chars).map Char.toLower := by
  have hascii : ∀ c ∈ ps.flatMap Padding.chars, c.toNat < 128 := by
    intro c hc
    obtain ⟨p, -, hp⟩ := List.mem_flatMap.1 hc
    exact Padding.toNat_lt hp
  have htext : (v.padded ps).text.toList = v.text.toList ++ ps.flatMap Padding.chars := by
    unfold padded
    rw [String.toList_append, String.toList_ofList]
  rw [htext, Text.lowerFrom_append_of (fun hmem => absurd hmem hv), Text.lowerFrom_ascii hascii]

/-- Zeros and words for a release count for nothing behind any version, any number of them, with points and hyphens in
front. The version has the same items as without them, so it has the same canonical text and the same place among all
versions. It must not have a capital sigma, which no version in ASCII has: its small form depends on what follows. -/
theorem items_padded {v : Version} (hv : 'Σ' ∉ v.text.toList) (ps : List Padding) :
    (v.padded ps).items = v.items ∧ (v.padded ps).canonical = v.canonical ∧
      (v.padded ps).compare v = .eq ∧ v.compare (v.padded ps) = .eq ∧
      ∀ w : Version, (v.padded ps).compare w = v.compare w ∧ w.compare (v.padded ps) = w.compare v := by
  have hitems : (v.padded ps).items = v.items := by
    have hfront := Items.congruence_eq.readFrom_append (Items.normal_readFrom_paddings ps)
      (Text.lowerFrom [] v.text.toList) .empty
    rw [List.append_nil] at hfront
    unfold items Items.read
    rw [lowerFrom_padded hv, hfront]
  have hself : v.items.compare v.items = .eq := Std.ReflCmp.compare_self
  unfold Version.compare canonical
  rw [hitems]
  exact ⟨rfl, rfl, hself, hself, fun w => ⟨rfl, rfl⟩⟩

end Version

namespace Candidate

def point (body : Padding.Body) : Padding :=
  ⟨'.', body, by decide⟩

def hyphen (body : Padding.Body) : Padding :=
  ⟨'-', body, by decide⟩

/-- A release candidate that ends in a separator. -/
def version : Version :=
  ⟨"1.0-RC1."⟩

/-- Zeros and all words for a release, behind points and hyphens. -/
def paddings : List Padding :=
  let zero : Padding.Body := .zero ⟨['0'], by simp, by simp⟩ (by decide)
  let zeros : Padding.Body := .zero ⟨['0', '0'], by simp, by simp⟩ (by decide)
  let ga : Padding.Body := .release ⟨"ga".toList, by simp, by simp⟩ (by decide)
  let capitals : Padding.Body := .release ⟨"GA".toList, by simp, by simp⟩ (by decide)
  let final : Padding.Body := .release ⟨"Final".toList, by simp, by simp⟩ (by decide)
  let release : Padding.Body := .release ⟨"RELEASE".toList, by simp, by simp⟩ (by decide)
  [point zero, hyphen zero, point zeros, point ga, hyphen capitals, point final, hyphen final, point release,
    hyphen release, hyphen .nothing]

theorem items_padded_candidate :
    'Σ' ∉ version.text.toList ∧
      (version.padded paddings).text = "1.0-RC1..0-0.00.ga-GA.Final-Final.RELEASE-RELEASE-" ∧
      (version.padded paddings).items = version.items ∧ (version.padded paddings).canonical = "1-rc-1" ∧
      (version.padded paddings).compare version = .eq ∧
      (version.padded paddings).compare ⟨"1.0-rc2"⟩ = .lt := by
  have hsigma : 'Σ' ∉ version.text.toList := by decide
  have hcanonical : version.canonical = "1-rc-1" := by decide +kernel
  have hbelow : version.compare ⟨"1.0-rc2"⟩ = .lt := by decide +kernel
  obtain ⟨hitems, htext, hsame, -, hothers⟩ := Version.items_padded hsigma paddings
  exact ⟨hsigma, by decide +kernel, hitems, htext.trans hcanonical, hsame, (hothers _).1.trans hbelow⟩

end Candidate

/-- A release behind a word changes the small form of a capital sigma at the end of the word. -/
example : (⟨"ΑΣ.ga"⟩ : Version).items ≠ (⟨"ΑΣ"⟩ : Version).items := by decide +kernel

/-! ## Words -/

/-- What counts of a word and its number. A release does not count. -/
def Suffix.tail (s : Suffix) : Option (String × Nat) :=
  if s.word.small ∈ Word.releases then none else some (s.name, s.number)

/-- The word of a tail is not empty. -/
theorem Suffix.tail_word_ne (s : Suffix) (q : String) (m : Nat) (h : s.tail = some (q, m)) : q ≠ "" := by
  unfold tail at h
  split at h
  · cases h
  · obtain ⟨rfl, -⟩ := Prod.mk.inj (Option.some.inj h)
    exact s.name_ne

/-- A version with a word behind it. -/
def Version.withSuffix (v : Version) (s : Suffix) : Version :=
  ⟨v.text ++ String.ofList ('-' :: s.chars)⟩

namespace Items

/-- Rows of tails are in the order of the tails, behind any run. -/
theorem placed_item {x y : Items} {t u : Option (String × Nat)} (hx : x.normal = ofTail t) (hy : y.normal = ofTail u)
    (ht : ∀ q m, t = some (q, m) → q ≠ "") (hu : ∀ q m, u = some (q, m) → q ≠ "") (run : Run) :
    Placed (NormalForm.compareTails t u) (run.item x).normal (run.item y).normal := by
  apply (congruence_placed _).item
  rw [hx, hy]
  constructor
  · rw [normal_ofTail_atEnd, normal_ofTail_atEnd]
  · exact ofTail_compare ht hu

theorem normal_nested_smallChars (s : Suffix) : (nested (readFrom .empty s.smallChars)).normal = ofTail s.tail := by
  rw [readFrom_smallChars, normal_ofSuffix]
  rfl

end Items

namespace Version

/-- Lowering a version with a suffix lowers both. -/
theorem lowerFrom_withSuffix (v : Version) (s : Suffix) :
    Text.lowerFrom [] (v.withSuffix s).text.toList = Text.lowerFrom [] v.text.toList ++ '-' :: s.smallChars := by
  have htext : (v.withSuffix s).text.toList = v.text.toList ++ '-' :: s.chars := by
    unfold withSuffix
    rw [String.toList_append, String.toList_ofList]
  rw [htext, Text.lowerFrom_append, Text.lowerFrom_ascii (fun c hc => Suffix.toNat_lt hc), s.map_toLower]

/-- Words are ordered alike behind all versions, whatever these end in: by their places, with the release between the
prereleases and the other words, then by their texts, and then by their numbers, where a missing number is a zero. The
version alone is its release. -/
theorem compare_withSuffix (v : Version) (s t : Suffix) :
    (v.withSuffix s).compare (v.withSuffix t) = NormalForm.compareTails s.tail t.tail ∧
      (v.withSuffix s).compare v = NormalForm.compareTails s.tail none := by
  -- whatever run is pending, the suffixes decide alone
  have htwo : ∀ run, Items.Placed (NormalForm.compareTails s.tail t.tail)
      (Items.readFrom run ('-' :: s.smallChars)).normal (Items.readFrom run ('-' :: t.smallChars)).normal := by
    intro run
    rw [Items.readFrom_hyphen, Items.readFrom_hyphen]
    exact Items.placed_item (Items.normal_nested_smallChars s) (Items.normal_nested_smallChars t) s.tail_word_ne
      t.tail_word_ne run
  -- behind no suffix the version ends, and the other one's suffix decides
  have hone : ∀ run, Items.Placed (NormalForm.compareTails s.tail none)
      (Items.readFrom run ('-' :: s.smallChars)).normal (Items.readFrom run []).normal := by
    intro run
    rw [Items.readFrom_hyphen, Items.normal_readFrom_nil]
    exact Items.placed_item (Items.normal_nested_smallChars s) rfl s.tail_word_ne (by simp) run
  have hfront := (Items.congruence_placed _).readFrom_append hone (Text.lowerFrom [] v.text.toList) .empty
  rw [List.append_nil] at hfront
  unfold Version.compare items Items.read
  rw [lowerFrom_withSuffix, lowerFrom_withSuffix]
  constructor
  · exact ((Items.congruence_placed _).readFrom_append htwo _ _).compare_eq
  · exact hfront.compare_eq

/-- A prerelease of a version that ends in items which do not count. -/
example : (⟨"1-.0.ga-CR"⟩ : Version).compare ⟨"1-.0.ga"⟩ = .lt := by decide +kernel

end Version

end VersionAudit
