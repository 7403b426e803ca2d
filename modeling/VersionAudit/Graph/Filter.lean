import VersionAudit.Graph.Basic
import VersionAudit.Text.Quoted

/-!
# Scopes and filters

1. `Scope.visible?`: the scopes of the dependencies that a build, a run or a test in some scope sees.
2. `Scope.transitive?`: the scope in which the dependencies of a dependency are looked at.
3. `Scope.derive`: the scope that a dependency of a dependency has.
4. `Filter`: which nodes of a graph belong to a resolution.
-/

namespace VersionAudit

namespace Scope

/-- The scopes a dependency may have. -/
def all : List String := ["compile", "provided", "runtime", "system", "test"]

/-- The scopes that are visible in a scope, in alphabetical order, or none if it is no such scope. -/
def visible? (scope : String) : Option (List String) :=
  if scope = "compile" then some ["compile", "provided", "system"]
  else if scope = "runtime" then some ["compile", "runtime"]
  else if scope = "compile+runtime" then some ["compile", "provided", "runtime", "system"]
  else if scope = "runtime+system" then some ["compile", "runtime", "system"]
  else if scope = "test" then some all
  else none

/-- The scope for the dependencies of a dependency in some scope: those needed for tests or provided by the
environment are not passed on. -/
def transitive? (scope : String) : Option String :=
  if scope = "test" ∨ scope = "provided" then some "compile+runtime"
  else if scope = "compile" ∨ scope = "runtime" ∨ scope = "compile+runtime" ∨ scope = "runtime+system" then
    some scope
  else none

/-- The scope of a dependency of a dependency, or none if it is not passed on. -/
def derive (parent : String) (dependency : String) : Option String :=
  if dependency = "provided" ∨ dependency = "test" ∨ dependency = "system" then none
  else if parent = "compile" then some dependency
  else if parent = "runtime" ∨ parent = "test" ∨ parent = "provided" then some parent
  else none

end Scope

/-- Decides which nodes of a graph belong to a resolution. -/
inductive Filter
  /-- Nodes requested in one of the scopes, and nodes not requested at all. -/
  | scopes (visible : List String)
  /-- Nodes not covered by an exclusion. -/
  | excluding (exclusions : List Exclusion)
  /-- Nodes that every part admits. -/
  | all (parts : List Filter)
deriving Repr

namespace Filter

/-- The filter for what is visible in a scope. -/
def visibleIn (scope : String) : Option Filter :=
  (Scope.visible? scope).map .scopes

/-- The filter for what a dependency in some scope passes on. -/
def passedOnBy (scope : String) : Option Filter :=
  (Scope.transitive? scope).bind visibleIn

/-- Whether a node is in one of the scopes. A node that nothing requests always is, a node of an unknown
scope never. -/
def inScopes (visible : List String) (n : Node) : Bool :=
  match n.scope? with
  | none => true
  | some scope => Scope.all.contains scope && visible.contains scope

mutual

/-- Whether the filter admits a node. -/
def admits : Filter → Node → Bool
  | .scopes visible, n => inScopes visible n
  | .excluding exclusions, n => !isExcluded n.artifact exclusions
  | .all parts, n => admitsAll parts n

/-- Whether every filter admits a node. -/
def admitsAll : List Filter → Node → Bool
  | [], _ => true
  | f :: fs, n => admits f n && admitsAll fs n

end

mutual

/-- The filter as text. -/
def text : Filter → String
  | .scopes visible =>
    "ScopeLimitingFilter(scopes=" ++ Text.quotedList visible ++ ")"
  | .excluding exclusions =>
    "CheckExclusionsFilter(" ++ Text.quotedList (exclusions.map (·.text)) ++ ")"
  | .all parts => "AndDependencyFilter(" ++ String.intercalate ", " (texts parts) ++ ")"

/-- The filters as texts. -/
def texts : List Filter → List String
  | [] => []
  | f :: fs => text f :: texts fs

end

end Filter

end VersionAudit
