import VersionAudit.Artifact
import VersionAudit.Text.Percent

/-!
# Addresses of the package service

The service describes every published package, and every version of it with the graph of its dependencies.
Names and versions are percent-encoded, so that no character of theirs can change the form of an address.
-/

namespace VersionAudit.DepsDev

/-- Where the packages are found. -/
def packages : String :=
  "https://api.deps.dev/v3/systems/maven/packages/"

/-- A name or a version as one segment of an address. -/
def segment (s : String) : String :=
  Text.percentEncode [] s

/-- The address of a package. -/
def packageAddress (group name : String) : String :=
  packages ++ segment (group ++ ":" ++ name)

/-- The address of the dependency graph of an artifact. -/
def graphAddress (a : Artifact) : String :=
  packages ++ segment a.path ++ "/versions/" ++ segment a.version ++ ":dependencies"

end VersionAudit.DepsDev
