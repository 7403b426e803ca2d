/-!
# Classes of characters

A class of characters is a list of closed ranges of code points.
-/

namespace VersionAudit.Text

/-- Whether a character lies in one of the given ranges. -/
def inRanges (ranges : List (Nat × Nat)) (c : Char) : Bool :=
  ranges.any fun r => r.1 ≤ c.toNat && c.toNat ≤ r.2

end VersionAudit.Text
