import VersionAudit.DepsDev.Address
import VersionAudit.Json.Basic
import VersionAudit.Step

/-!
# Asking the package service

1. `Transport`: how a query reaches the service and what can come back.
2. `graphAnswer?` and `versionsAnswer?`: the two questions. An answer other than success is no answer, and a
   query that fails on its way is noted.
-/

namespace VersionAudit.DepsDev

/-- A query to the service. -/
structure Query where
  address : String
  /-- Seconds to wait for an answer. -/
  timeout : Int := 30
deriving Repr, DecidableEq

/-- The fields sent along with every query. -/
def headers : List (String × String) :=
  [("Accept", "application/json"), ("User-Agent", "depversions/1.0.0")]

/-- What comes back. -/
inductive Response
  /-- An answer of some status. -/
  | answer (status : Nat) (body : Json)
  /-- Nothing came back, for the given reason. -/
  | failed (reason : String)
deriving Repr

/-- The way to the service. Its state is whatever the answers depend on. -/
structure Transport (σ : Type) where
  send : Query → σ → Response × σ

variable {σ : Type}

/-- Asks for the value at an address. -/
def ask (t : Transport σ) (timeout : Int) (address subject : String) : Step σ (Option Json) := do
  let (response, s) := t.send { address, timeout } (← Step.read)
  Step.write s
  match response with
  | .answer status body => return if status = 200 then some body else none
  | .failed reason =>
    Step.note .error .engine ("Error fetching " ++ subject ++ ": " ++ reason)
    return none

/-- Asks for the dependency graph of an artifact. -/
def graphAnswer? (t : Transport σ) (timeout : Int) (a : Artifact) : Step σ (Option Json) :=
  ask t timeout (graphAddress a) ("dependency graph for " ++ a.path ++ ":" ++ a.version)

/-- The version in an entry of a description, unless it is empty. -/
def listedVersion (entry : Json) : Except AnswerFault (Option String) := do
  let key ← fieldOf "versionKey" (.object []) entry
  let version ← fieldOf "version" .null key
  return version.string?.filter (· ≠ "")

/-- The versions listed in the description of a package. -/
def listedVersions (description : Json) : Except AnswerFault (List String) := do
  let entries ← itemsOf (← fieldOf "versions" (.array []) description)
  return (← entries.mapM listedVersion).filterMap id

/-- Asks for the published versions of a package. -/
def versionsAnswer? (t : Transport σ) (timeout : Int) (group name : String) :
    Step σ (Option (List String)) := do
  match ← ask t timeout (packageAddress group name) ("versions for " ++ group ++ ":" ++ name) with
  | none => return none
  | some .null => return none
  | some description =>
    return some (← Step.ofExcept ((listedVersions description).mapError .malformedAnswer))

end VersionAudit.DepsDev
