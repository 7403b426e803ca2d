import VersionAudit.Failure

/-!
# The outcome of a resolution

A resolved graph, with the dependencies that could not be resolved and why. Two policies recover unresolved
dependencies: what the projects of the same build produce, and what comes from the system.
-/

namespace VersionAudit

/-- Why a resolution is incomplete, and what kind of repository could not be read. -/
structure Cause where
  message : String
  contentType : Option String := none
deriving Repr, DecidableEq

/-- The outcome of resolving a graph. -/
structure Outcome where
  graph : Graph
  resolved : List Dependency := []
  recovered : List Dependency := []
  unresolved : List Dependency := []
  cause : Option Cause := none
deriving Repr

namespace Outcome

/-- Moves one dependency from the unresolved to the recovered ones. -/
def recoverOne (o : Outcome) (d : Dependency) : Option Outcome :=
  if d ∈ o.unresolved then
    some { o with unresolved := o.unresolved.erase d, recovered := o.recovered ++ [d] }
  else none

/-- Moves dependencies from the unresolved to the recovered ones, up to the first that is not unresolved. -/
def recover (o : Outcome) : List Dependency → Outcome × Except Failure Unit
  | [] => (o, .ok ())
  | d :: ds =>
    match o.recoverOne d with
    | some o => o.recover ds
    | none => (o, .error .notUnresolved)

/-- Recovers the unresolved dependencies that satisfy a condition, and names them. -/
def recoverWhere (o : Outcome) (condition : Dependency → Bool) :
    Outcome × Except Failure (List Dependency) :=
  let found := o.unresolved.filter condition
  match o.recover found with
  | (o, .ok ()) => (o, .ok found)
  | (o, .error failure) => (o, .error failure)

/-- Recovers what the projects of the build produce. -/
def recoverBuilt (reactor : List Project) (o : Outcome) : Outcome × Except Failure (List Dependency) :=
  o.recoverWhere fun d => reactor.any (·.builds d.artifact)

/-- Recovers what comes from the system. -/
def recoverSystem (o : Outcome) : Outcome × Except Failure (List Dependency) :=
  o.recoverWhere fun d => d.scope == "system"

/-- Recovers by both policies, by the second only if the system may lack something. -/
def recoverAll (reactor : List Project) (systemMustResolve : Bool) (o : Outcome) :
    Outcome × Except Failure Unit :=
  match o.recoverBuilt reactor with
  | (o, .error failure) => (o, .error failure)
  | (o, .ok _) =>
    if systemMustResolve then (o, .ok ())
    else
      match o.recoverSystem with
      | (o, .error failure) => (o, .error failure)
      | (o, .ok _) => (o, .ok ())

/-- Whether a repository of the old layout could not be read. -/
def isLegacyFailure (o : Outcome) : Bool :=
  match o.cause with
  | some cause => cause.contentType == some "legacy"
  | none => false

end Outcome

end VersionAudit
