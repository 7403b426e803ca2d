import VersionAudit.Graph.Basic
import VersionAudit.Strategy.Registry
import VersionAudit.Text.Quoted
import VersionAudit.Version.Basic

/-!
# Configuration of an audit

1. `Waiver`: a combination of artifact, expected and resolved version that is never reported as a conflict.
2. `Configuration`: what an audit looks at, what it reports and what makes it fail.
-/

namespace VersionAudit

/-- A combination that is never a conflict. It takes part only if both versions are given. -/
structure Waiver where
  target : String
  pattern : Pattern
  expected : Option Version
  resolved : Option Version
deriving Repr

namespace Waiver

/-- Reads a waiver. A missing target is the empty one, which selects everything. -/
def read (target expected resolved : Option String) : Except PatternFault Waiver := do
  let target := Text.trim (target.getD "")
  let pattern ← Pattern.read target
  return { target, pattern, expected := expected.map Version.mk, resolved := resolved.map Version.mk }

/-- Whether both versions are given. -/
def isComplete (w : Waiver) : Bool :=
  w.expected.isSome && w.resolved.isSome

/-- Whether a version is the one given. -/
def fits (given : Option Version) (v : Version) : Bool :=
  match given with
  | some g => g == v
  | none => false

/-- Whether the waiver covers a node that was expected in one version and resolved in another. -/
def covers (w : Waiver) (n : Node) (expected resolved : Version) : Bool :=
  w.pattern.selects n.identity && fits w.expected expected && fits w.resolved resolved

/-- Whether two missing or given versions agree. -/
def sameVersion : Option Version → Option Version → Bool
  | none, none => true
  | some v, some w => v == w
  | _, _ => false

/-- Whether two waivers say the same. -/
def isSame (w x : Waiver) : Bool :=
  w.target == x.target && sameVersion w.expected x.expected && sameVersion w.resolved x.resolved

/-- A version of the waiver as text. -/
def versionText (v : Option Version) : String :=
  match v with
  | some v => v.text
  | none => "None"

/-- The waiver as text. -/
def text (w : Waiver) : String :=
  "VersionCheckExclude(dependency=" ++ Text.quoted w.target ++ ", expected=" ++ versionText w.expected ++
    ", resolved=" ++ versionText w.resolved ++ ")"

end Waiver

/-- The options of an audit. -/
structure Configuration where
  /-- The scope to resolve. -/
  scope : String := "test"
  /-- Every resolved dependency counts as requester, not only the declared ones. -/
  deepScan : Bool := false
  /-- Report only artifacts that the project itself requests. -/
  directOnly : Bool := false
  /-- Report only artifacts whose version is managed. -/
  managedOnly : Bool := false
  /-- Which strategy is used for which artifacts; the first rule counts. -/
  rules : List StrategyRule := []
  /-- The strategy of all other artifacts. -/
  defaultStrategy : Option String := some "default"
  /-- Combinations that are never a conflict. -/
  waivers : List Waiver := []
  /-- A dependency of system scope that cannot be resolved is a failure. -/
  systemMustResolve : Bool := false
  /-- Report only artifacts with conflicts. -/
  conflictsOnly : Bool := true
  /-- Any conflict is a failure. -/
  failOnConflict : Bool := false
  /-- A conflict of a direct dependency is a failure. -/
  failOnDirectConflict : Bool := false
  /-- Look at nothing. -/
  skip : Bool := false
  /-- Look at projects of packaging `pom` too. -/
  includePomProjects : Bool := false
  /-- Do not tell about progress. -/
  quiet : Bool := false

/-- The faults of a configuration. -/
inductive ConfigurationFault
  | incompleteWaiver (waiver : String)
  | invalidScope (scope : String)
deriving Repr, DecidableEq

/-- The message of a fault. -/
def ConfigurationFault.message : ConfigurationFault → String
  | .incompleteWaiver waiver => "Invalid exclusion specification: '" ++ waiver ++ "'"
  | .invalidScope scope => "Scope '" ++ scope ++ "' is invalid"

namespace Configuration

/-- The scopes that an audit can be made for. -/
def scopes : List String := ["compile+runtime", "compile", "runtime", "test"]

/-- The first fault of a configuration, if it has one. -/
def fault? (c : Configuration) : Option ConfigurationFault :=
  match c.waivers.find? fun w => !w.isComplete with
  | some w => some (.incompleteWaiver w.text)
  | none => if scopes.contains c.scope then none else some (.invalidScope c.scope)

end Configuration

end VersionAudit
