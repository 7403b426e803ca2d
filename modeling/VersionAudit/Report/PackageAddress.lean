import VersionAudit.Report.Bill
import VersionAudit.Sorting.Merge
import VersionAudit.Text.Percent

/-!
# Package addresses

The address that names a package: `pkg:`, the kind of repository, group, name, version, and qualifiers.
-/

namespace VersionAudit.Report

/-- A part of an address. A slash and a colon need no escape. -/
def addressPart (s : String) : String :=
  Text.percentEncode ['/', ':'] s

/-- A text without the slashes at its ends. -/
def trimSlashes (s : String) : String :=
  String.ofList (((s.toList.dropWhile (· == '/')).reverse.dropWhile (· == '/')).reverse)

/-- The segments of a group. Blank segments do not count, and the first and the last one are without the blanks
at the ends of the whole group. -/
def groupSegments (group : String) : List String :=
  let filled := (Text.split '/' group).filter fun segment => !Text.isBlankText segment
  if filled.isEmpty then [] else Text.split '/' (Text.trim (String.intercalate "/" filled))

/-- The qualifiers by name, blank ones left out. -/
def orderedQualifiers (qs : List (String × String)) : List (String × String) :=
  Sorting.sortBy (fun q r => q.1 < r.1) (qs.filter fun q => !Text.isBlankText q.2)

/-- The address of a package. The name stands without blanks and slashes at its ends, and something has to be left
of it. -/
def packageAddress (p : Package) : Except Failure String :=
  let path := (groupSegments (p.group.getD "")).map addressPart
  let name := addressPart (trimSlashes (Text.trim p.name))
  let version := addressPart (Text.trim p.version)
  let versionPart := if version = "" then "" else "@" ++ version
  let qualifierPart :=
    match orderedQualifiers p.qualifiers with
    | [] => ""
    | qs => "?" ++ String.intercalate "&" (qs.map fun q => q.1 ++ "=" ++ addressPart q.2)
  if p.name = "" then .error .unnamedPackage
  else if name = "" then .error (.namelessAddress path.isEmpty)
  else
    .ok ("pkg:" ++ p.repository ++ "/" ++ String.join (path.map (· ++ "/")) ++ name ++ versionPart ++ qualifierPart)

end VersionAudit.Report
