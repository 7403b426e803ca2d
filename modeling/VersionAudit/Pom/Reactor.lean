import VersionAudit.Pom.Model

/-!
# Reading projects from files

1. `Source.readProject`: the project of one file.
2. `Source.readReactor`: the project of a file with all projects that it and its modules list.
-/

namespace VersionAudit.Pom

variable {σ : Type}

namespace Source

/-- The root element of a file; `path` is how messages name it. -/
def readFile (s : Source σ) (path : String) (place : Option Location) : Except Failure Xml.Element :=
  match place.bind s.files.content? with
  | none => .error (.model (.unreadable path))
  | some content =>
    match s.repository.root? content with
    | .ok (some root) => .ok root
    | .ok none => .error (.model (.malformed path))
    | .error failure => .error failure

/-- The project of the file at the end of a path. -/
def readProject (s : Source σ) (path : String) : Step (Memory σ) Project := do
  let root ← Step.ofExcept (s.readFile path (s.files.walk path))
  s.project (root, .file (s.files.working.join path))

/-- The projects found so far, and the files visited. -/
structure Found where
  projects : List Project := []
  visited : List Location := []

/-- Reads the project at a place and those of its modules. A module that is not there is noted. -/
def collect (s : Source σ) : (fuel : Nat) → Found → Location → Step (Memory σ) Found
  | 0, found, _ => return found
  | fuel + 1, found, place => do
    if found.visited.contains place then return found
    let found := { found with visited := place :: found.visited }
    let root ← Step.ofExcept (s.readFile place.text (some place))
    let project ← s.project (root, .file place)
    let found := { found with projects := found.projects ++ [project] }
    project.modules.foldlM
      (fun found module => do
        let target := s.files.modelAt (place.parent.join module)
        if s.files.isThere target then s.collect fuel found target
        else do
          Step.warn ("Module " ++ module ++ " of " ++ project.text ++ " not found at " ++ target.text)
          return found)
      found

/-- All projects of a build, the one at the end of the path first. No file is visited twice, so the number of
files bounds the depth. -/
def readReactor (s : Source σ) (path : String) : Step (Memory σ) (List Project) := do
  let found ← s.collect (s.files.nodes.length + 2) {} (s.files.working.join path)
  return found.projects

end Source

end VersionAudit.Pom
