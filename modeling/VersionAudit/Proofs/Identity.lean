import Mathlib.Data.List.Pairwise
import Mathlib.Data.String.Basic
import VersionAudit.Pattern

/-!
# Equal identities

Two identities are equal if maps find them by the same key. Equal identities agree in group and name, so in
everything read off these two: the names that requests are told apart by, and the patterns that select them.
-/

namespace VersionAudit

namespace Identity

/-- Identities are equal if their keys are. -/
theorem beq_iff {m n : Identity} : (m == n) = true ↔ m.key = n.key := by
  show (m.key == n.key) = true ↔ _
  exact beq_iff_eq

@[simp] theorem group_key (n : Identity) : n.key.group = n.group := by
  unfold key
  split <;> rfl

@[simp] theorem name_key (n : Identity) : n.key.name = n.name := by
  unfold key
  split <;> rfl

theorem group_eq_of_beq {m n : Identity} (h : (m == n) = true) : m.group = n.group := by
  rw [← group_key, beq_iff.1 h, group_key]

theorem name_eq_of_beq {m n : Identity} (h : (m == n) = true) : m.name = n.name := by
  rw [← name_key, beq_iff.1 h, name_key]

theorem minimalName_eq_of_beq {m n : Identity} (h : (m == n) = true) : m.minimalName = n.minimalName := by
  unfold minimalName
  rw [group_eq_of_beq h, name_eq_of_beq h]

/-- Unless the kind is given as an empty one, kind and classifier tell whether the identity is that of tests. -/
theorem isTests_iff {n : Identity} (h : n.kind? ≠ some "") :
    n.isTests = true ↔ n.kind = "test-jar" ∨ n.kind = "jar" ∧ n.classifier = "tests" := by
  rcases n with ⟨group, name, _ | ⟨kind, classifier⟩⟩
  · simp [isTests, kind, classifier, kind?, classifier?]
  · have hkind : kind ≠ "" := by simpa [kind?] using h
    cases classifier with
    | none => simp [isTests, Identity.kind, Identity.classifier, kind?, classifier?, hkind]
    | some classifier =>
      simp [isTests, Identity.kind, Identity.classifier, kind?, classifier?, hkind, and_comm]

/-- Unless a kind is given as an empty one, maps find the identities that mean the same artifact. -/
theorem isSame_eq_beq {m n : Identity} (hm : m.kind? ≠ some "") (hn : n.kind? ≠ some "") :
    m.isSame n = (m == n) := by
  have hdiffer : m.isTests ≠ n.isTests → ¬ (m.kind = n.kind ∧ m.classifier = n.classifier) := by
    rintro hne ⟨hkind, hclassifier⟩
    refine hne ?_
    rw [Bool.eq_iff_iff, isTests_iff hm, isTests_iff hn, hkind, hclassifier]
  have hnot : ∀ k : Identity, k.kind? ≠ some "" → k.isTests = false → k.kind ≠ "test-jar" := by
    intro k hk htest hkind
    rw [(isTests_iff hk).2 (.inl hkind)] at htest
    cases htest
  rw [Bool.eq_iff_iff, beq_iff]
  unfold isSame key
  -- tests are one artifact under both spellings, and other artifacts differ in kind or classifier
  cases hmtests : m.isTests with
  | true =>
    cases hntests : n.isTests with
    | true => simp
    | false =>
      have hkind : ¬ "test-jar" = n.kind := fun h => hnot n hn hntests h.symm
      simp [hkind, hdiffer (by simp [hmtests, hntests])]
  | false =>
    cases hntests : n.isTests with
    | true => simp [hnot m hm hmtests, hdiffer (by simp [hmtests, hntests])]
    | false => simp [and_assoc]

theorem minimalName_eq_of_isSame {m n : Identity} (h : m.isSame n = true) : m.minimalName = n.minimalName := by
  simp only [isSame, Bool.and_eq_true, beq_iff_eq] at h
  unfold minimalName
  rw [h.1.1, h.1.2]

/-- Identities are ordered by their names. -/
theorem before_iff {m n : Identity} : m.before n = true ↔ m.minimalName < n.minimalName := by
  unfold before Identity.compare
  split
  · rename_i h
    rw [minimalName_eq_of_isSame h]
    simp
  · rw [beq_iff_eq]
    exact compare_lt_iff_lt

end Identity

/-- Of dependencies that are told apart by their identities, equal ones are the same. -/
theorem Dependency.eq_of_distinct {ds : List Dependency}
    (hdistinct : ds.Pairwise fun d e => (Identity.ofArtifact d.artifact == Identity.ofArtifact e.artifact) = false)
    {d e : Dependency} (hd : d ∈ ds) (he : e ∈ ds)
    (h : (Identity.ofArtifact d.artifact == Identity.ofArtifact e.artifact) = true) : d = e := by
  by_contra hne
  have hsymm : Std.Symm fun d e : Dependency =>
      (Identity.ofArtifact d.artifact == Identity.ofArtifact e.artifact) = false :=
    ⟨fun d e h => BEq.comm.trans h⟩
  exact Bool.false_ne_true ((hdistinct.forall hd he hne).symm.trans h)

/-- A pattern selects equal identities alike. -/
theorem Pattern.selects_congr (p : Pattern) {m n : Identity} (h : (m == n) = true) : p.selects m = p.selects n := by
  unfold selects
  rw [Identity.group_eq_of_beq h, Identity.name_eq_of_beq h]

end VersionAudit
