import VersionAudit.Step
import VersionAudit.Xml.Element

/-!
# Models from the central repository

A model that is not at hand is downloaded, at most once. That it cannot be had is kept too.
-/

namespace VersionAudit.Pom

/-- The coordinates of a model. -/
structure Coordinates where
  group : String
  name : String
  version : String
deriving Repr, DecidableEq

namespace Coordinates

/-- The coordinates as text. -/
def text (c : Coordinates) : String :=
  c.group ++ ":" ++ c.name ++ ":" ++ c.version

/-- The address of the model. -/
def address (c : Coordinates) : String :=
  "https://repo1.maven.org/maven2/" ++ String.intercalate "/" (Text.split '.' c.group) ++ "/" ++ c.name ++
    "/" ++ c.version ++ "/" ++ c.name ++ "-" ++ c.version ++ ".pom"

end Coordinates

/-- What comes back for an address. -/
inductive Download
  /-- An answer of some status. -/
  | answer (status : Nat) (content : ByteArray)
  /-- Nothing came back, for the given reason. -/
  | failed (reason : String)

/-- The way to the repository, and how models are read, from there and from files. -/
structure Repository (σ : Type) where
  /-- What comes back for an address. The state is whatever the answers depend on. -/
  fetch : String → σ → Download × σ
  /-- The root of a document, or none if the document is not well-formed. Reading can also break off with a message, for
  instance at an encoding that is not known. -/
  read : ByteArray → Except String (Option Xml.Element)

variable {σ : Type}

/-- The root of a model, or none if the model is not well-formed. -/
def Repository.root? (r : Repository σ) (content : ByteArray) : Except Failure (Option Xml.Element) :=
  (r.read content).mapError .undecodable

/-- Downloads a model. What goes wrong is noted. -/
def download (r : Repository σ) (c : Coordinates) : Step σ (Option Xml.Element) := do
  let (answer, s) := r.fetch c.address (← Step.read)
  Step.write s
  match answer with
  | .failed reason =>
    Step.warn ("Error downloading POM " ++ c.text ++ ": " ++ reason)
    return none
  | .answer status content =>
    if 400 ≤ status then
      Step.warn ("Failed to download POM " ++ c.text ++ ": HTTP " ++ toString status)
      return none
    else
      match ← Step.ofExcept (r.root? content) with
      | some root => return some root
      | none =>
        Step.warn ("Downloaded POM " ++ c.text ++ " is not valid XML: <ParseError>")
        return none

/-- The state of the repository, the downloads so far, and the bills of materials imported into the project
being read. -/
structure Memory (σ : Type) where
  repository : σ
  downloads : OrderedMap Coordinates (Option Xml.Element) := ∅
  imported : List Coordinates := []

/-- The model of the given coordinates, downloaded unless it was before. -/
def modelOf (r : Repository σ) (c : Coordinates) : Step (Memory σ) (Option Xml.Element) := do
  match (← Step.read).downloads.find? c with
  | some root => return root
  | none =>
    let root ← (download r c).within (·.repository) fun s (m : Memory σ) => { m with repository := s }
    let memory ← Step.read
    Step.write { memory with downloads := memory.downloads.insert c root }
    return root

end VersionAudit.Pom
