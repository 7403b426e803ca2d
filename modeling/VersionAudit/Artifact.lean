import VersionAudit.OrderedMap
import VersionAudit.Text.Split

/-!
# Artifacts and dependencies

1. `Artifact`: what a repository holds under coordinates, with its snapshot versions.
2. `Dependency`: a request for an artifact, with its scope and exclusions.
3. `Project`: what is being audited, with its declared dependencies and its dependency management.
-/

namespace VersionAudit

/-- An artifact: coordinates and version. -/
structure Artifact where
  group : String
  name : String
  version : String
  kind : String := "jar"
  classifier : String := ""
deriving Repr, DecidableEq, Inhabited

namespace Artifact

/-- Group and name. -/
def path (a : Artifact) : String :=
  a.group ++ ":" ++ a.name

/-- All coordinates. The kind is left out for a plain jar, an empty classifier always. -/
def coordinates (a : Artifact) : String :=
  String.intercalate ":"
    ([a.group, a.name] ++ (if a.kind ≠ "jar" ∨ a.classifier ≠ "" then [a.kind] else []) ++
      (if a.classifier ≠ "" then [a.classifier] else []) ++ [a.version])

/-- The same artifact in another version. -/
def withVersion (a : Artifact) (version : String) : Artifact :=
  { a with version }

/-- The artifact that holds the model of this artifact. -/
def model (a : Artifact) : Artifact :=
  if a.kind = "pom" ∧ a.classifier = "" then a
  else { group := a.group, name := a.name, version := a.version, kind := "pom" }

/-! ## Snapshots -/

/-- Digits at the front of a text, and the rest. -/
def takeDigits (cs : List Char) : List Char × List Char :=
  cs.span fun c => '0' ≤ c && c ≤ '9'

/-- A snapshot time stamp: eight digits, a point, six digits, a hyphen and a build number, then the end of
the text or of its last line. -/
def isTimestamp (cs : List Char) : Bool :=
  match takeDigits cs with
  | (day, '.' :: rest) =>
    match takeDigits rest with
    | (time, '-' :: rest) =>
      match takeDigits rest with
      | (build, rest) =>
        day.length == 8 && time.length == 6 && !build.isEmpty && (rest == [] || rest == ['\n'])
    | _ => false
  | _ => false

/-- The text in front of a time stamp: empty, or one line that ends in a hyphen. The longest such text is
taken; `before` holds the characters already passed, the latest first. -/
def beforeTimestamp? (before : List Char) : List Char → Option (List Char)
  | [] => none
  | c :: rest =>
    let here :=
      if (before.isEmpty || before.head? == some '-') && !before.contains '\n' && isTimestamp (c :: rest)
      then some before.reverse
      else none
    (beforeTimestamp? (c :: before) rest).or here

/-- Whether the version is a snapshot, by its ending or by its time stamp. -/
def isSnapshot (a : Artifact) : Bool :=
  Text.endsWith "SNAPSHOT" a.version || (beforeTimestamp? [] a.version.toList).isSome

/-- The version with a snapshot time stamp replaced by the word for a snapshot. -/
def baseVersion (a : Artifact) : String :=
  match beforeTimestamp? [] a.version.toList with
  | some front => String.ofList front ++ "SNAPSHOT"
  | none => a.version

end Artifact

/-- An exclusion declared on a dependency. A star in either part excludes everything there. -/
structure Exclusion where
  group : String
  name : String
deriving Repr, DecidableEq

namespace Exclusion

/-- The exclusion as text. -/
def text (e : Exclusion) : String :=
  e.group ++ ":" ++ e.name

/-- Whether a part of an exclusion covers a value. -/
def covers (part value : String) : Bool :=
  part == "*" || part == value

/-- Whether the exclusion covers an artifact. -/
def excludes (e : Exclusion) (a : Artifact) : Bool :=
  covers e.group a.group && covers e.name a.name

end Exclusion

/-- Whether one of the exclusions covers the artifact. -/
def isExcluded (a : Artifact) (exclusions : List Exclusion) : Bool :=
  exclusions.any (·.excludes a)

/-- A request for an artifact. -/
structure Dependency where
  artifact : Artifact
  scope : String := "compile"
  isOptional : Bool := false
  exclusions : List Exclusion := []
deriving Repr, DecidableEq, Inhabited

/-- The dependency as text. -/
def Dependency.text (d : Dependency) : String :=
  d.artifact.coordinates ++ " [" ++ d.scope ++ (if d.isOptional then ", optional" else "") ++ "]"

/-- A project: its coordinates, what it declares, and the versions it manages by group and name. -/
structure Project where
  group : String
  name : String
  version : String
  packaging : String := "jar"
  dependencies : List Dependency := []
  management : OrderedMap String Dependency := ∅
  modules : List String := []
  location : Option String := none
deriving Repr, Inhabited

namespace Project

/-- The artifact that a project builds. -/
def artifact (p : Project) : Artifact :=
  { group := p.group, name := p.name, version := p.version, kind := p.packaging }

/-- The project as text. -/
def text (p : Project) : String :=
  p.group ++ ":" ++ p.name ++ ":" ++ p.version

/-- Whether a project builds an artifact of these coordinates. -/
def builds (p : Project) (a : Artifact) : Bool :=
  p.group == a.group && p.name == a.name && p.version == a.version

end Project

end VersionAudit
