import VersionAudit.OrderedMap
import VersionAudit.Version.Basic
import VersionAudit.Version.Components

/-!
# Compatibility strategies

A strategy says whether an artifact built against the expected version runs with the resolved one. The
strategies that compare components read them from the canonical texts of the two versions.
-/

namespace VersionAudit

/-- A named compatibility rule: expected version first, resolved version second. -/
structure Strategy where
  name : String
  isCompatible : Version → Version → Bool
deriving Inhabited

namespace Strategy

/-- The components of a version in canonical form. -/
def components (v : Version) : Components :=
  Components.ofString v.canonical

/-- Whether two versions have the same qualifier; a missing one is empty. -/
def sameQualifier (expected resolved : Components) : Bool :=
  expected.qualifier.getD "" == resolved.qualifier.getD ""

/-- Any version that is not older will do. -/
def default : Strategy where
  name := "default"
  isCompatible expected resolved := resolved.compare expected != .lt

/-- The same major, a minor that is not smaller, and the same qualifier. -/
def apr : Strategy where
  name := "apr"
  isCompatible expected resolved :=
    let e := components expected
    let r := components resolved
    e.major == r.major && e.minor ≤ r.minor && sameQualifier e r

/-- A major that is not smaller. -/
def singleDigit : Strategy where
  name := "single-digit"
  isCompatible expected resolved := (components expected).major ≤ (components resolved).major

/-- For versions of two numbers: a major that is not smaller, no third number, and the same qualifier. -/
def twoDigits : Strategy where
  name := "two-digits-backward-compatible"
  isCompatible expected resolved :=
    let e := components expected
    let r := components resolved
    e.major ≤ r.major && e.incremental == 0 && r.incremental == 0 && sameQualifier e r

/-- The strategies that are always known. -/
def known : List Strategy :=
  [default, apr, singleDigit, twoDigits]

end Strategy

end VersionAudit
