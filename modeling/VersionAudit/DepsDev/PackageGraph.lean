import VersionAudit.DepsDev.Answer
import VersionAudit.Text.Split

/-!
# Graphs of the package service

The service describes the resolved graph of one artifact as a list of packages and a list of edges between
their places. One of the packages is the artifact itself.
-/

namespace VersionAudit.DepsDev

/-- A package of a graph. -/
structure Package where
  group : String
  name : String
  version : String
deriving Repr, DecidableEq, Inhabited

/-- The graph of an artifact. -/
structure PackageGraph where
  packages : Array Package
  /-- The place of the artifact itself. -/
  self : Option Nat
  edges : List (Int × Int)
deriving Repr, DecidableEq

namespace PackageGraph

/-- Reads one package. Group and name are separated by the first colon. -/
def readPackage (j : Json) : Except AnswerFault Package := do
  let key ← fieldOf "versionKey" (.object []) j
  let (group, name) := Text.cut ':' (← nameOf (← fieldOf "name" (.string "") key)).toList
  let version ← fieldOf "version" (.string "") key
  return ⟨String.ofList group, String.ofList (name.getD []), version.string?.getD ""⟩

/-- Whether a package is the artifact itself. -/
def isSelf (j : Json) : Bool :=
  (j.field? "relation").bind Json.string? == some "SELF"

/-- Reads one edge, if both its ends are given. -/
def readEdge (j : Json) : Except AnswerFault (Option (Int × Int)) := do
  let source ← fieldOf "fromNode" .null j
  let target ← fieldOf "toNode" .null j
  return do return (← source.int?, ← target.int?)

/-- The place of the last package that is the artifact itself. -/
def lastSelf (packages : List Json) : Option Nat :=
  (packages.zipIdx.filter fun p => isSelf p.1).getLast?.map (·.2)

/-- Reads the packages and the edges of a graph. -/
def readParts (packages edges : Json) : Except AnswerFault PackageGraph := do
  let described ← itemsOf packages
  let packages ← described.mapM readPackage
  let edges ← (← itemsOf edges).mapM readEdge
  return { packages := packages.toArray, self := lastSelf described, edges := edges.filterMap id }

/-- Reads a graph. An answer without packages is no graph. -/
def read (j : Json) : Except AnswerFault (Option PackageGraph) := do
  if isVacant j then return none
  let packages ← fieldOf "nodes" .null j
  if isVacant packages then return none
  return some (← readParts packages (← fieldOf "edges" (.array []) j))

/-- The places that edges lead to from a place, in the order of the edges. -/
def targets (g : PackageGraph) (place : Int) : List Int :=
  (g.edges.filter (·.1 == place)).map (·.2)

/-- The package at a place. Negative places count from the end. -/
def package? (g : PackageGraph) (place : Int) : Option Package :=
  if 0 ≤ place then g.packages[place.toNat]?
  else if -(g.packages.size : Int) ≤ place then g.packages[(place + g.packages.size).toNat]?
  else none

end PackageGraph

end VersionAudit.DepsDev
