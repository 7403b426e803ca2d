import VersionAudit.Proofs.Identity

/-!
# Which identities mean the same artifact

`isSame` accepts identities by one of two rules: both are of tests, or kind and classifier agree. The rules overlap, so
it is an equivalence only if they draw the same line between tests and other artifacts. Tests under an empty kind are
the one spelling for which they do not.

1. `meant`: the key that kind and classifier stand for. `isSame_iff`: `isSame` accepts the identities that have the same
   one, unless the two are `Torn` apart. `key_eq_iff`: maps do so too, but by another exception.
2. `compare_eq`: the order goes by group and name alone, so identities that mean the same have the same place in it.
3. `isSame_trans_iff`: `isSame` is an equivalence with which hashing and the order agree, up to that spelling.
-/

namespace VersionAudit.Identity

variable {x y z : Identity}

/-! ## Tests under an empty kind -/

/-- Kind and classifier are those of tests. -/
def saysTests (n : Identity) : Bool :=
  n.kind == "test-jar" || (n.kind == "jar" && n.classifier == "tests")

/-- Tests under an empty kind. It counts as the kind of a jar, but not when tests are looked for. -/
def Overlooked (n : Identity) : Prop :=
  n.kind? = some "" ∧ n.classifier? = some "tests"

/-- Tests are a `test-jar`, or a `jar` with the classifier of tests. -/
theorem saysTests_eq_true_iff : x.saysTests = true ↔ x.kind = "test-jar" ∨ x.kind = "jar" ∧ x.classifier = "tests" := by
  simp [saysTests]

/-- An empty text for a kind stands for a `jar`. -/
theorem kind_of_empty (h : x.kind? = some "") : x.kind = "jar" := by
  unfold kind
  rw [h]
  rfl

/-- Under an empty text for a kind no tests are recognised, whatever the classifier. -/
theorem isTests_of_empty (h : x.kind? = some "") : x.isTests = false := by
  -- the check compares the text that was given, not the kind it stands for
  unfold isTests
  rw [h]
  simp

theorem Overlooked.classifier (h : x.Overlooked) : x.classifier = "tests" := by
  unfold Identity.classifier
  rw [h.2]
  rfl

theorem not_overlooked_of_isTests (h : x.isTests = true) : ¬ x.Overlooked := by
  intro hover
  rw [isTests_of_empty hover.1] at h
  cases h

/-- All that says tests is found to be tests, but for the spelling that is overlooked. -/
theorem saysTests_iff : x.saysTests = true ↔ x.isTests = true ∨ x.Overlooked := by
  rw [saysTests_eq_true_iff]
  by_cases hempty : x.kind? = some ""
  · have hclassifier : x.classifier = "tests" ↔ x.classifier? = some "tests" := by
      unfold classifier
      cases x.classifier? with
      | none => simp
      | some classifier => simp
    unfold Overlooked
    rw [kind_of_empty hempty, isTests_of_empty hempty, hclassifier]
    simp [hempty]
  · have hseen : ¬ x.Overlooked := fun h => hempty h.1
    rw [isTests_iff hempty, or_iff_left hseen]

/-! ## What is meant -/

/-- The key of what kind and classifier say, with one spelling for tests. -/
def meant (n : Identity) : Key :=
  if n.saysTests then ⟨n.group, n.name, "test-jar", "tests"⟩ else ⟨n.group, n.name, n.kind, n.classifier⟩

/-- One is the spelling of tests that is overlooked, and the other one has the kind of tests. -/
def Torn (x y : Identity) : Prop :=
  x.Overlooked ∧ y.kind = "test-jar" ∨ x.kind = "test-jar" ∧ y.Overlooked

/-- Two identities are meant to be the same if they name tests of one artifact, or agree in kind and classifier. -/
theorem meant_eq_iff : x.meant = y.meant ↔ x.group = y.group ∧ x.name = y.name ∧
    (x.saysTests = true ∧ y.saysTests = true ∨ x.kind = y.kind ∧ x.classifier = y.classifier) := by
  have hsame : x.kind = y.kind → x.classifier = y.classifier → x.saysTests = y.saysTests := by
    intro hkind hclassifier
    unfold saysTests
    rw [hkind, hclassifier]
  have hkind : ∀ {n : Identity}, n.saysTests = false → n.kind ≠ "test-jar" := by
    intro n hnot h
    rw [saysTests_eq_true_iff.2 (.inl h)] at hnot
    cases hnot
  unfold meant
  cases hx : x.saysTests <;> cases hy : y.saysTests
  · simp
  · -- a key with the kind of tests is that of tests only
    rw [hx, hy] at hsame
    have hnot := hkind hx
    simp only [Bool.false_eq_true, ↓reduceIte, Key.mk.injEq, hnot, false_and, and_false, false_iff, and_true, false_or]
    rintro ⟨-, -, hkinds, hclassifiers⟩
    exact Bool.false_ne_true (hsame hkinds hclassifiers)
  · rw [hx, hy] at hsame
    have hnot := hkind hy
    simp only [Bool.false_eq_true, ↓reduceIte, Key.mk.injEq, hnot.symm, false_and, and_false, false_iff, false_or]
    rintro ⟨-, -, hkinds, hclassifiers⟩
    exact Bool.false_ne_true (hsame hkinds hclassifiers).symm
  · simp

/-- Identities mean the same if the same is meant, unless they are torn apart. -/
theorem isSame_iff : x.isSame y = true ↔ x.meant = y.meant ∧ ¬ x.Torn y := by
  have hunfold : x.isSame y = true ↔ x.group = y.group ∧ x.name = y.name ∧
      (x.isTests = true ∧ y.isTests = true ∨ x.kind = y.kind ∧ x.classifier = y.classifier) := by
    simp [isSame, and_assoc]
  have hne : ¬ "jar" = "test-jar" := by decide
  rw [hunfold, meant_eq_iff]
  constructor
  · rintro ⟨hgroup, hname, ⟨hx, hy⟩ | ⟨hkind, hclassifier⟩⟩
    · refine ⟨⟨hgroup, hname, .inl ⟨saysTests_iff.2 (.inl hx), saysTests_iff.2 (.inl hy)⟩⟩, ?_⟩
      rintro (⟨hover, -⟩ | ⟨-, hover⟩)
      · exact not_overlooked_of_isTests hx hover
      · exact not_overlooked_of_isTests hy hover
    · refine ⟨⟨hgroup, hname, .inr ⟨hkind, hclassifier⟩⟩, ?_⟩
      rintro (⟨hover, htests⟩ | ⟨htests, hover⟩)
      · rw [← hkind, kind_of_empty hover.1] at htests
        exact hne htests
      · rw [hkind, kind_of_empty hover.1] at htests
        exact hne htests
  · rintro ⟨⟨hgroup, hname, ⟨hx, hy⟩ | hagree⟩, hnot⟩
    · refine ⟨hgroup, hname, ?_⟩
      -- tests in the spelling that is overlooked agree with those of the same kind and classifier only
      rcases saysTests_iff.1 hx with hxtests | hxover
      · rcases saysTests_iff.1 hy with hytests | hyover
        · exact .inl ⟨hxtests, hytests⟩
        · rcases saysTests_eq_true_iff.1 hx with hkind | ⟨hkind, hclassifier⟩
          · exact absurd (.inr ⟨hkind, hyover⟩) hnot
          · exact .inr ⟨hkind.trans (kind_of_empty hyover.1).symm, hclassifier.trans hyover.classifier.symm⟩
      · rcases saysTests_eq_true_iff.1 hy with hkind | ⟨hkind, hclassifier⟩
        · exact absurd (.inl ⟨hxover, hkind⟩) hnot
        · exact .inr ⟨(kind_of_empty hxover.1).trans hkind.symm, hxover.classifier.trans hclassifier.symm⟩
    · exact ⟨hgroup, hname, .inr hagree⟩

/-! ## Keys -/

/-- The key of an identity is the one that is meant, unless it is overlooked tests. -/
theorem key_of_not_overlooked (h : ¬ x.Overlooked) : x.key = x.meant := by
  have hsame : x.saysTests = x.isTests := by
    rw [Bool.eq_iff_iff, saysTests_iff, or_iff_left h]
  unfold key meant
  rw [hsame]

/-- Overlooked tests get the key of a jar. -/
theorem Overlooked.key (h : x.Overlooked) : x.key = ⟨x.group, x.name, "jar", "tests"⟩ := by
  unfold Identity.key
  rw [isTests_of_empty h.1, kind_of_empty h.1, h.classifier]
  rfl

/-- They are meant to get the key of a test jar. -/
theorem Overlooked.meant (h : x.Overlooked) : x.meant = ⟨x.group, x.name, "test-jar", "tests"⟩ := by
  unfold Identity.meant
  rw [if_pos (saysTests_iff.2 (.inr h))]

/-- Nothing but the overlooked spelling is found under a jar with the classifier of tests. -/
theorem Overlooked.key_ne (hx : x.Overlooked) (hy : ¬ y.Overlooked) : x.key ≠ y.key := by
  rw [hx.key, key_of_not_overlooked hy]
  intro heq
  unfold Identity.meant at heq
  split at heq
  · rw [Key.mk.injEq] at heq
    exact absurd heq.2.2.1 (by decide)
  · rename_i hnot
    rw [Key.mk.injEq] at heq
    exact hnot (saysTests_eq_true_iff.2 (.inr ⟨heq.2.2.1.symm, heq.2.2.2.symm⟩))

/-- Maps find identities under the same key if the same is meant, unless just one of them is overlooked. -/
theorem key_eq_iff : x.key = y.key ↔ x.meant = y.meant ∧ (x.Overlooked ↔ y.Overlooked) := by
  -- the key is what is meant but for the overlooked spelling, which has a key that nothing else has
  by_cases hx : x.Overlooked <;> by_cases hy : y.Overlooked
  · rw [hx.key, hy.key, hx.meant, hy.meant]
    simp [hx, hy]
  · simp [hx, hy, hx.key_ne hy]
  · simp [hx, hy, (hy.key_ne hx).symm]
  · rw [key_of_not_overlooked hx, key_of_not_overlooked hy]
    simp [hx, hy]

/-! ## Order -/

/-- The order is that of the names. -/
theorem compare_eq (x y : Identity) : x.compare y = Ord.compare x.minimalName y.minimalName := by
  unfold Identity.compare
  split
  · rename_i h
    rw [minimalName_eq_of_isSame h]
    exact Std.ReflCmp.compare_self.symm
  · rfl

theorem compare_swap (x y : Identity) : y.compare x = (x.compare y).swap := by
  rw [compare_eq, compare_eq]
  exact Std.OrientedCmp.eq_swap

/-- The order of identities is transitive. -/
theorem isLE_compare_trans (hxy : (x.compare y).isLE) (hyz : (y.compare z).isLE) : (x.compare z).isLE := by
  -- identities that mean the same have one minimal name, by which all others are ordered
  rw [compare_eq] at hxy hyz ⊢
  exact Std.TransCmp.isLE_trans hxy hyz

/-! ## The equivalence -/

/-- An identity means the same as itself. -/
theorem isSame_refl (x : Identity) : x.isSame x = true := by
  refine isSame_iff.2 ⟨rfl, ?_⟩
  have hne : ¬ "jar" = "test-jar" := by decide
  rintro (⟨hover, hkind⟩ | ⟨hkind, hover⟩)
  · exact hne ((kind_of_empty hover.1).symm.trans hkind)
  · exact hne ((kind_of_empty hover.1).symm.trans hkind)

/-- To mean the same is symmetric. -/
theorem isSame_symm (h : x.isSame y = true) : y.isSame x = true := by
  obtain ⟨hmeant, hnot⟩ := isSame_iff.1 h
  refine isSame_iff.2 ⟨hmeant.symm, ?_⟩
  rintro (⟨hover, hkind⟩ | ⟨hkind, hover⟩)
  · exact hnot (.inr ⟨hkind, hover⟩)
  · exact hnot (.inl ⟨hover, hkind⟩)

/-- To mean the same is an equivalence with which keys and order agree, but for tests under an empty kind:

* Every identity means the same as itself, and if one means the same as another, then also the other way round.
* Of three identities in a row, the outer ones mean the same unless one of them is tests under an empty kind and the
  other one has the kind of tests.
* Identities that mean the same have the same key unless just one of them is tests under an empty kind.
* They have the same place in the order, which turns around with its arguments and is transitive. -/
theorem isSame_trans_iff (x y z : Identity) :
    x.isSame x = true ∧
    (x.isSame y = true → y.isSame x = true) ∧
    (x.isSame y = true → y.isSame z = true → (x.isSame z = true ↔ ¬ x.Torn z)) ∧
    (x.isSame y = true → (x.key = y.key ↔ (x.Overlooked ↔ y.Overlooked))) ∧
    (x.isSame y = true → x.compare y = .eq) ∧
    y.compare x = (x.compare y).swap ∧
    ((x.compare y).isLE = true → (y.compare z).isLE = true → (x.compare z).isLE = true) := by
  refine ⟨isSame_refl x, isSame_symm, ?_, ?_, ?_, compare_swap x y, isLE_compare_trans⟩
  -- what is meant carries over, so that the ends are the same unless they are torn
  · intro hxy hyz
    have hmeant : x.meant = z.meant := (isSame_iff.1 hxy).1.trans (isSame_iff.1 hyz).1
    rw [isSame_iff, and_iff_right hmeant]
  · intro hxy
    rw [key_eq_iff, and_iff_right (isSame_iff.1 hxy).1]
  · intro hxy
    rw [Identity.compare, if_pos hxy]

namespace Library

/-- The tests of a library, under an empty kind, as a jar with a classifier, and by their own kind. -/
def blank : Identity :=
  { group := "g", name := "lib", variant := some ("", some "tests") }

def jar : Identity :=
  { group := "g", name := "lib", variant := some ("jar", some "tests") }

def testJar : Identity :=
  { group := "g", name := "lib", variant := some ("test-jar", none) }

/-- The jar means the same as either of the others, but these do not mean the same; and maps do not find it under an
empty kind. -/
theorem not_isSame_trans :
    ¬ (blank.isSame jar = true → jar.isSame testJar = true → blank.isSame testJar = true) ∧
      ¬ (blank.isSame jar = true → blank.key = jar.key) := by
  decide

end Library

end VersionAudit.Identity
