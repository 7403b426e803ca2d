import VersionAudit.Version.Basic

/-!
# Equal versions

Versions are equal if their canonical texts are, whatever they were written as.
-/

namespace VersionAudit

instance : EquivBEq Version where
  rfl := by simp [BEq.beq]
  symm := by
    intro v w h
    simp only [BEq.beq, decide_eq_true_eq] at h ⊢
    exact h.symm
  trans := by
    intro u v w h g
    simp only [BEq.beq, decide_eq_true_eq] at h g ⊢
    exact h.trans g

/-- Versions are equal if their canonical texts are. -/
theorem Version.beq_iff {v w : Version} : (v == w) = true ↔ v.canonical = w.canonical := by
  show (v.canonical == w.canonical) = true ↔ _
  exact beq_iff_eq

end VersionAudit
