import VersionAudit.Identity
import VersionAudit.Sorting
import VersionAudit.Version.Basic

/-!
# Who expects which version

Every dependency of a project expects certain versions of other artifacts.

1. `Request`: one requester, with what is known about its request.
2. `RequestGroup`: all requesters of the same version of an artifact.
3. `ResolutionMap`: the groups of every artifact, gathered by `ResolutionMap.ofList`. Artifacts are ordered by
   name, groups by version, requesters by name, and of repeated requests the first one counts.
-/

namespace VersionAudit

/-- One requester of a version. -/
structure Request where
  requester : Identity
  /-- The resolved version is set by dependency management. -/
  managed : Bool := false
  /-- The request comes from the project itself. -/
  direct : Bool := false
  /-- The resolved version is not compatible with the expected one. -/
  conflict : Bool := false
deriving Repr, Inhabited

namespace Request

/-- Requests are told apart without their conflict. -/
instance : BEq Request :=
  ⟨fun x y => x.requester == y.requester && x.managed == y.managed && x.direct == y.direct⟩

/-- Whether two requests say the same, apart from their conflict. -/
def isSame (x y : Request) : Bool :=
  x.requester.isSame y.requester && x.managed == y.managed && x.direct == y.direct

/-- The name that requests of one group are told apart by. -/
def name (r : Request) : String :=
  r.requester.minimalName

/-- Whether a request comes before another: by the names of the requesters. -/
def before (x y : Request) : Bool :=
  x.name < y.name

end Request

/-- A requested version. -/
structure VersionRequest where
  expected : Version
  request : Request
deriving Repr, Inhabited

/-- All requesters of one version, at most one of each name, in the order of their names. -/
structure RequestGroup where
  expected : Version
  requests : List Request
deriving Repr, Inhabited

namespace RequestGroup

/-- The first request of each name. -/
def firstOfEachName (requests : List Request) : List Request :=
  requests.foldl (fun kept r => if kept.any (·.name == r.name) then kept else kept ++ [r]) []

/-- The group of the given requests. -/
def make (expected : Version) (requests : List Request) : RequestGroup :=
  ⟨expected, Sorting.sortBy Request.before (firstOfEachName requests)⟩

/-- Whether some requester is in conflict with the resolved version. -/
def hasConflict (g : RequestGroup) : Bool :=
  g.requests.any (·.conflict)

/-- Whether the project itself requests the version. -/
def isDirect (g : RequestGroup) : Bool :=
  g.requests.any (·.direct)

/-- Whether the resolved version is managed. -/
def isManaged (g : RequestGroup) : Bool :=
  g.requests.any (·.managed)

/-- Whether the version of the group is the given one. -/
def isFor (g : RequestGroup) (v : Version) : Bool :=
  g.expected == v

/-- Whether a group comes before another: by the expected version. -/
def before (g h : RequestGroup) : Bool :=
  g.expected.before h.expected

/-- Whether two lists of requests say the same, request by request. -/
def sameRequests : List Request → List Request → Bool
  | [], [] => true
  | x :: xs, y :: ys => x.isSame y && sameRequests xs ys
  | _, _ => false

/-- Whether two groups say the same, apart from conflicts. -/
def isSame (g h : RequestGroup) : Bool :=
  g.expected == h.expected && sameRequests g.requests h.requests

end RequestGroup

/-- The groups of requests of every artifact. -/
abbrev ResolutionMap := OrderedMap Identity (List RequestGroup)

namespace ResolutionMap

/-- The requests gathered so far, by artifact and version. -/
abbrev Gathered := OrderedMap Identity (OrderedMap Version (List Request))

/-- Adds a request unless it is there already. -/
def addNew (requests : List Request) (r : Request) : List Request :=
  if requests.any (· == r) then requests else requests ++ [r]

/-- Adds the request of a version of an artifact. -/
def gather (m : Gathered) (entry : Identity × VersionRequest) : Gathered :=
  m.alter entry.1 ∅ fun byVersion =>
    byVersion.alter entry.2.expected [] fun requests => addNew requests entry.2.request

/-- The groups of one artifact in the order of their versions. -/
def groups (byVersion : OrderedMap Version (List Request)) : List RequestGroup :=
  Sorting.sortBy RequestGroup.before (byVersion.entries.map fun e => .make e.1 e.2)

/-- The map of a list of requests. -/
def ofList (requests : List (Identity × VersionRequest)) : ResolutionMap :=
  let gathered : Gathered := requests.foldl gather ∅
  ⟨(Sorting.sortBy (fun x y => x.1.before y.1) gathered.entries).map fun e => (e.1, groups e.2)⟩

/-- The artifacts that satisfy every requested condition. -/
def select (m : ResolutionMap) (conflictsOnly directOnly managedOnly : Bool) : ResolutionMap :=
  ⟨m.entries.filter fun e =>
    (!conflictsOnly || e.2.any (·.hasConflict)) && (!directOnly || e.2.any (·.isDirect)) &&
      (!managedOnly || e.2.any (·.isManaged))⟩

end ResolutionMap

end VersionAudit
