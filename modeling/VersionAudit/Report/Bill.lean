import VersionAudit.Json.Basic
import VersionAudit.Report.Entry

/-!
# Bills of materials

A report as a bill of materials: one component for every package address among the entries, below the first project. How
an address is made from a package, and a document from a bill, is left to a library.

1. `Library`: what makes addresses and documents.
2. `Bill.make`: the bill of a report.
3. `document`: the document of a report.
-/

namespace VersionAudit.Report

/-- Whether a package is needed at run time. -/
inductive Need
  | required
  | excluded
deriving Repr, DecidableEq

/-- What is needed for tests, provided by the environment or taken from the system is not needed at run time. -/
def Need.ofScope (scope : String) : Need :=
  if ["test", "provided", "system"].contains (Text.lower scope) then .excluded else .required

/-! ## Packages -/

/-- What the address of a package is made of. -/
structure Package where
  /-- The kind of repository that the package is in. -/
  repository : String
  group : Option String := none
  name : String
  version : String
  qualifiers : List (String × String) := []
deriving Repr, DecidableEq

namespace Package

/-- The package of an artifact in some version. Qualifiers are for what is no plain jar. -/
def of (n : Identity) (version : String) : Package where
  repository := "maven"
  group := some n.group
  name := n.name
  version := version
  qualifiers :=
    [("type", if n.kind = "jar" then "" else n.kind), ("classifier", n.classifier)].filter fun q => q.2 ≠ ""

/-- The program that writes the bill. -/
def tool : Package where
  repository := "pypi"
  name := "depversions"
  version := "1.0.0"

end Package

/-! ## Bills -/

/-- A component of a bill. The project itself has no need and no properties. -/
structure Component where
  address : String
  group : Option String
  name : String
  version : String
  need : Option Need := none
  properties : List (String × String) := []
deriving Repr, DecidableEq

/-- A bill of materials. -/
structure Bill where
  /-- The program that writes the bill. -/
  tool : Component
  /-- What the bill is about. -/
  root : Option Component
  components : List Component
  /-- The components that the root depends on. -/
  needed : List Component
  commandLine : String
deriving Repr

/-- What makes addresses and documents. -/
structure Library where
  address : Package → Except Failure String
  write : Bill → Json

namespace Component

variable (lib : Library)

/-- The component of a package. -/
def ofPackage (p : Package) : Except Failure Component := do
  return { address := ← lib.address p, group := p.group, name := p.name, version := p.version }

/-- The component of a project. -/
def ofProject (p : Project) : Except Failure Component :=
  ofPackage lib (.of (.ofProject p) p.version)

/-- What is said of an expected version. -/
def expected (g : RequestGroup) : String :=
  g.expected.text ++ (if g.hasConflict then " (conflict)" else "") ++ " expected by " ++
    String.intercalate ", " (g.requests.map (·.requester.shortName))

/-- The properties of an entry. -/
def propertiesOf (e : Entry) : List (String × String) :=
  [("depversions:resolved", e.resolved.text),
    ("depversions:conflict", if e.hasConflict then "true" else "false"),
    ("depversions:strategy", e.strategy)] ++
    e.groups.map fun g => ("depversions:expected", expected g)

/-- The component of an entry. -/
def ofEntry (e : Entry) : Except Failure Component := do
  let c ← ofPackage lib (.of e.name e.resolved.text)
  return { c with need := some (.ofScope e.scope), properties := propertiesOf e }

end Component

variable (lib : Library)

namespace Bill

/-- Adds the component of an entry unless its address is there already. -/
def add (components : List Component) (e : Entry) : Except Failure (List Component) := do
  let c ← Component.ofEntry lib e
  return if components.any (·.address == c.address) then components else components ++ [c]

/-- The bill of the entries of some projects, the first of which is its root and depends on all components. -/
def make (projects : List Project) (entries : List Entry) (commandLine : String) : Except Failure Bill := do
  let tool ← Component.ofPackage lib .tool
  let root ← projects.head?.mapM (Component.ofProject lib)
  let components ← entries.foldlM (add lib) []
  return { tool, root, components, needed := if root.isSome then components else [], commandLine }

end Bill

/-- The document of the entries of some projects. -/
def document (projects : List Project) (entries : List Entry) (commandLine : String) : Except Failure Json :=
  (Bill.make lib projects entries commandLine).map lib.write

end VersionAudit.Report
