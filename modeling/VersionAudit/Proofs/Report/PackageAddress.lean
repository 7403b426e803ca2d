import VersionAudit.Proofs.Report.Document
import VersionAudit.Proofs.Text.Percent

/-!
# Which packages have an address

`exists_packageAddress_iff`: a package has an address just if something is left of its name without the blanks and slashes
at its ends.
-/

namespace VersionAudit.Report

theorem addressPart_eq_empty_iff {s : String} : addressPart s = "" ↔ s = "" := by
  have hempty : addressPart "" = "" := rfl
  have hinjective : Function.Injective addressPart := Text.percentEncode_injective (by decide)
  constructor
  · intro h
    exact hinjective (h.trans hempty.symm)
  · rintro rfl
    exact hempty

/-- A package has an address just if it has a name. -/
theorem exists_packageAddress_iff {p : Package} : (∃ address, packageAddress p = .ok address) ↔ IsNamed p.name := by
  -- an empty name and a name of slashes and blanks are refused in two places
  have hblank : p.name = "" → ¬ IsNamed p.name := by
    intro h hnamed
    apply hnamed
    rw [h]
    rfl
  unfold packageAddress
  dsimp only
  split
  · rename_i h
    simp [hblank h]
  · split
    · rename_i h
      have hnot : ¬ IsNamed p.name := fun hnamed => hnamed (addressPart_eq_empty_iff.1 h)
      simp [hnot]
    · rename_i h
      have hnamed : IsNamed p.name := fun hnone => h (addressPart_eq_empty_iff.2 hnone)
      simp [hnamed]

end VersionAudit.Report
