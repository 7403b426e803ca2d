import VersionAudit.CommandLine.Run
import VersionAudit.Json.Reader
import VersionAudit.Report.CycloneDx
import VersionAudit.Xml.Encoding

/-!
# Saved answers

The services without a network: every address is answered by what was saved for it, and an address for which
nothing was saved is not found.
-/

namespace VersionAudit.CommandLine

/-- What was saved, by the name of the file that holds it. -/
structure SavedAnswers where
  files : List (String × ByteArray) := []

namespace SavedAnswers

/-- The name of the file for an address: the address, with everything escaped that could part a path. -/
def fileName (address : String) : String :=
  DepsDev.segment address

/-- What was saved for an address. -/
def find? (a : SavedAnswers) (address : String) : Option ByteArray :=
  a.files.lookup (fileName address)

/-- The model repository. -/
def repository (a : SavedAnswers) : Pom.Repository Unit where
  fetch address s :=
    match a.find? address with
    | some content => (.answer 200 content, s)
    | none => (.answer 404 .empty, s)
  read := Xml.Element.ofBytes

/-- The package service. -/
def transport (a : SavedAnswers) : DepsDev.Transport Unit where
  send q s :=
    match a.find? q.address with
    | none => (.answer 404 .null, s)
    | some content =>
      match (String.fromUTF8? content).bind Json.read with
      | some body => (.answer 200 body, s)
      | none => (.failed "the saved answer is no JSON document", s)

/-- All services. -/
def services (a : SavedAnswers) : Services Unit where
  repository := a.repository
  transport := a.transport
  library := .usual

end SavedAnswers

end VersionAudit.CommandLine
