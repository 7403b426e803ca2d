import VersionAudit.Analysis

/-!
# Report entries

What a report says about one artifact of a project: the version in use, and who expects which version of it.
-/

namespace VersionAudit

/-- One reported artifact. -/
structure Entry where
  name : Identity
  resolved : Version
  scope : String
  /-- The project itself requests the artifact. -/
  direct : Bool
  /-- The resolved version is set by dependency management. -/
  managed : Bool
  /-- The name of the strategy that the artifact was checked with. -/
  strategy : String
  groups : List RequestGroup
deriving Repr, Inhabited

namespace Entry

/-- Whether some requester is in conflict with the resolved version. -/
def hasConflict (e : Entry) : Bool :=
  e.groups.any (·.hasConflict)

/-- The groups of the expected versions other than the resolved one. -/
def unselected (e : Entry) : List RequestGroup :=
  e.groups.filter fun g => !g.isFor e.resolved

/-- The entry of an artifact. -/
def make (a : Analysis) (name : Identity) (groups : List RequestGroup) : Except Failure Entry :=
  match a.root.all.find? name with
  | none => .error (.unselected name a.project)
  | some n =>
    .ok
      { name
        resolved := ⟨n.artifact.version⟩
        scope := n.scope?.getD ""
        direct := groups.any (·.isDirect)
        managed := n.isVersionManaged
        strategy := (a.assignment.strategy name).1.name
        groups }

end Entry

/-- The entries of a part of the resolution map. -/
def Analysis.entries (a : Analysis) (requests : ResolutionMap) : Except Failure (List Entry) :=
  requests.entries.mapM fun e => Entry.make a e.1 e.2

/-- The part of the resolution map that a configuration asks for. -/
def Analysis.selected (a : Analysis) (c : Configuration) : ResolutionMap :=
  a.requests.select c.conflictsOnly c.directOnly c.managedOnly

end VersionAudit
