import VersionAudit.FileTree
import VersionAudit.Pom.Central
import VersionAudit.Pom.Property
import VersionAudit.Text.LowerCase

/-!
# Effective models

A model inherits coordinates, properties and dependency management from its parents and imports further
management from bills of materials.

1. `Source.parents`: the parents of a model, the oldest first.
2. `dependencyOf?`: a declared dependency with its properties resolved.
3. `Source.effective`: the project of a model without its dependencies.
4. `Source.project`: the project with its dependencies, completed by management.
-/

namespace VersionAudit.Pom

open Xml (Element)

/-- Where a model was read from. -/
inductive Origin
  | file (location : Location)
  | central (coordinates : Coordinates)
deriving Repr, DecidableEq

/-- The origin as text. -/
def Origin.text : Origin → String
  | .file location => location.text
  | .central coordinates => "maven-central:" ++ coordinates.text

/-- A model with its origin. -/
abbrev Document := Element × Origin

/-- Where models come from, and how deeply parents and imports are followed. -/
structure Source (σ : Type) where
  files : FileTree
  repository : Repository σ
  depth : Nat := 1000

/-- Management entries by group and name. -/
abbrev Management := OrderedMap String Dependency

/-! ## Reading parts of a model -/

/-- The properties that a model sets. -/
def propertiesOf (root : Element) : Properties :=
  let set := (root.child? "properties").toList.flatMap (·.children)
  .ofList ((set.filter fun p => p.name ≠ "" ∧ p.text ≠ "").map fun p => (p.name, Text.trim p.text))

/-- The modules that a model lists. -/
def modulesOf (root : Element) : List String :=
  ((root.listed "modules" "module").filter fun m => !Text.isBlankText m.text).map fun m => Text.trim m.text

/-- A text that may be missing, as messages show it. -/
def shown (s : Option String) : String :=
  s.getD "None"

/-- The meaning of a child's text. -/
def valueOf? (properties : Properties) (e : Element) (name : String) : Option String :=
  resolve? properties (e.value? name)

/-- The meaning of a child's text, unless it is empty. -/
def filled? (properties : Properties) (e : Element) (name : String) : Option String :=
  (valueOf? properties e name).filter (· ≠ "")

/-- The exclusions of a dependency. One with an unresolvable part does not count. -/
def exclusionsOf (properties : Properties) (e : Element) : List Exclusion :=
  (e.listed "exclusions" "exclusion").filterMap fun x => do
    return ⟨← filled? properties x "groupId", ← filled? properties x "artifactId"⟩

variable {σ : Type}

/-- A declared dependency with its properties resolved. One without group or name is left out, which is noted;
a missing version or scope is empty. -/
def dependencyOf? (properties : Properties) (e : Element) : Step σ (Option Dependency) := do
  match filled? properties e "groupId", filled? properties e "artifactId" with
  | some group, some name =>
    let version := valueOf? properties e "version"
    if (e.value? "version").isSome && version.isNone then
      Step.warn ("Unresolvable version " ++ shown (e.value? "version") ++ " for " ++ group ++ ":" ++ name)
    let artifact : Artifact :=
      { group, name, version := version.getD "", kind := (filled? properties e "type").getD "jar"
        classifier := (filled? properties e "classifier").getD "" }
    let isOptional := Text.lower ((filled? properties e "optional").getD "") == "true"
    return some
      { artifact, scope := (filled? properties e "scope").getD "", isOptional
        exclusions := exclusionsOf properties e }
  | _, _ =>
    Step.warn ("Skipping dependency with unresolvable coordinates: " ++ shown (e.value? "groupId") ++ ":" ++
      shown (e.value? "artifactId"))
    return none

/-! ## Parents -/

/-- The group of a model, its own or that of its parent. -/
def ownGroup? (root : Element) : Option String :=
  (root.value? "groupId").or ((root.child? "parent").bind (·.value? "groupId"))

/-- Whether a model is the one that a parent section asks for. -/
def isAskedFor (asked : Element) (root : Element) : Bool :=
  ownGroup? root == asked.value? "groupId" && root.value? "artifactId" == asked.value? "artifactId"

/-- The coordinates of a parent section, if they are complete. -/
def parentCoordinates? (asked : Element) : Option Coordinates := do
  return ⟨← asked.value? "groupId", ← asked.value? "artifactId", ← asked.value? "version"⟩

namespace Source

/-- The parent beside a model on disk, if it is there and is the one asked for. -/
def localParent? (s : Source σ) (asked : Element) : Origin → Except Failure (Option Document)
  | .central _ => .ok none
  | .file location =>
    let path := (asked.value? "relativePath").getD "../pom.xml"
    let place := s.files.modelAt (location.parent.join path)
    if !s.files.isThere place then .ok none
    else
      match s.files.content? place with
      | none => .error (.model .parentIsDirectory)
      | some content =>
        (s.repository.root? content).map fun root? => (root?.filter (isAskedFor asked)).map (·, .file place)

/-- The parent of a model: beside it on disk, or from the repository. -/
def parent? (s : Source σ) (asked : Element) (origin : Origin) : Step (Memory σ) (Option Document) := do
  match ← Step.ofExcept (s.localParent? asked origin) with
  | some document => return some document
  | none =>
    match parentCoordinates? asked with
    | none => return none
    | some coordinates => return (← modelOf s.repository coordinates).map (·, .central coordinates)

/-- The parents of a model, the oldest first. -/
def parents (s : Source σ) : (depth : Nat) → Document → Step (Memory σ) (List Document)
  | 0, (_, origin) => Step.fail (.model (.tooDeep origin.text))
  | depth + 1, (root, origin) => do
    match root.child? "parent" with
    | none => return []
    | some asked =>
      match ← s.parent? asked origin with
      | some parent => return (← s.parents depth parent) ++ [parent]
      | none =>
        Step.warn ("Could not resolve parent POM " ++ shown (asked.value? "groupId") ++ ":" ++
          shown (asked.value? "artifactId") ++ ":" ++ shown (asked.value? "version"))
        return []

end Source

/-! ## Dependency management -/

/-- The management that a model declares, and the one it imports. -/
structure Managed where
  declared : Management := ∅
  imported : Management := ∅

/-- Imports a bill of materials, at most once for a project; `expand` gives the project of a model. -/
def importBill (s : Source σ) (expand : Document → Step (Memory σ) Project) (c : Coordinates) :
    Step (Memory σ) Management := do
  let memory ← Step.read
  if memory.imported.contains c then return ∅
  Step.write { memory with imported := c :: memory.imported }
  match ← modelOf s.repository c with
  | none =>
    Step.warn ("Failed to download BOM: " ++ c.text)
    return ∅
  | some root => return (← expand (root, .central c)).management

/-- Takes one entry of a management section. -/
def Managed.add (s : Source σ) (expand : Document → Step (Memory σ) Project) (properties : Properties)
    (m : Managed) (e : Element) : Step (Memory σ) Managed := do
  match ← dependencyOf? properties e with
  | none => return m
  | some d =>
    let a := d.artifact
    if a.version = "" then return m
    else if d.scope = "import" ∧ a.kind = "pom" then
      return { m with imported := m.imported.update (← importBill s expand ⟨a.group, a.name, a.version⟩) }
    else return { m with declared := m.declared.insert a.path d }

/-- The management section of a model, after what its parents manage. -/
def Managed.addModel (s : Source σ) (expand : Document → Step (Memory σ) Project) (properties : Properties)
    (m : Managed) (root : Element) : Step (Memory σ) Managed :=
  let entries := (root.child? "dependencyManagement").toList.flatMap (·.listed "dependencies" "dependency")
  entries.foldlM (add s expand properties) m

/-- What is in force: an entry that is declared comes before an imported one. -/
def Managed.effective (m : Managed) : Management :=
  m.imported.update m.declared

/-! ## The effective model -/

/-- The properties that a model knows about its parent section. -/
def parentProperties (root : Element) : Properties :=
  let known (name property : String) : List (String × String) :=
    (((root.child? "parent").bind (·.value? property)).map (name, ·)).toList
  .ofList (known "project.parent.groupId" "groupId" ++ known "project.parent.version" "version")

/-- A value of a model, its own or that of its parent section. -/
def inherited? (root : Element) (name : String) : Option String :=
  (root.value? name).or ((root.child? "parent").bind (·.value? name))

/-- A property that is set if there is a value. -/
def setIfGiven (properties : Properties) (name : String) (value : Option String) : Properties :=
  match value with
  | some v => properties.insert name v
  | none => properties

namespace Source

/-- The project of a model without its dependencies, and the properties in force. -/
def effective (s : Source σ) : (depth : Nat) → Document → Step (Memory σ) (Project × Properties)
  | 0, (_, origin) => Step.fail (.model (.tooDeep origin.text))
  | depth + 1, (root, origin) => do
    let parents ← s.parents s.depth (root, origin)
    let packaging := (root.value? "packaging").getD "jar"
    let group := inherited? root "groupId"
    let version := inherited? root "version"
    let properties :=
      (parents.map (·.1) ++ [root]).foldl (fun known r => known.update (propertiesOf r)) (parentProperties root)
    match root.value? "artifactId" with
    | none => Step.fail (.model (.noName origin.text))
    | some name =>
      let properties := (properties.insert "project.artifactId" name).insert "project.packaging" packaging
      let properties := setIfGiven properties "project.groupId" group
      let properties := setIfGiven properties "project.version" version
      let resolvedVersion ←
        match resolve? properties version with
        | some v => pure v
        | none => do
          Step.warn ("Could not resolve version " ++ shown version ++ " of " ++ origin.text)
          pure (version.getD "unknown")
      let properties := properties.insert "project.version" resolvedVersion
      match (resolve? properties group).filter (· ≠ "") with
      | none => Step.fail (.model (.noGroup origin.text))
      | some resolvedGroup =>
        let properties := properties.insert "project.groupId" resolvedGroup
        let expand (d : Document) : Step (Memory σ) Project := do
          return (← s.effective depth d).1
        let managed ← (parents.map (·.1) ++ [root]).foldlM (Managed.addModel s expand properties) {}
        let project : Project :=
          { group := resolvedGroup, name, version := resolvedVersion, packaging
            management := managed.effective
            modules := modulesOf root
            location := match origin with
              | .file location => some location.text
              | .central _ => none }
        return (project, properties)

/-- A declared dependency completed by management. One without a version is left out, which is noted. -/
def complete (management : Management) (d : Dependency) : Step (Memory σ) (Option Dependency) := do
  let entry := management.find? d.artifact.path
  let version :=
    if d.artifact.version = "" then (entry.map (·.artifact.version)).getD "" else d.artifact.version
  if version = "" then
    Step.warn ("Skipping dependency with no version: " ++ d.artifact.path)
    return none
  else
    let scope := if d.scope = "" then (entry.map (·.scope)).getD "" else d.scope
    let exclusions := if d.exclusions.isEmpty then (entry.map (·.exclusions)).getD [] else d.exclusions
    return some
      { artifact := d.artifact.withVersion version, scope := if scope = "" then "compile" else scope
        isOptional := d.isOptional, exclusions }

/-- A declared dependency of a project, resolved and completed. -/
def declared? (management : Management) (properties : Properties) (e : Element) :
    Step (Memory σ) (Option Dependency) := do
  match ← dependencyOf? properties e with
  | none => return none
  | some d => complete management d

/-- The project of a model. -/
def project (s : Source σ) (document : Document) : Step (Memory σ) Project := do
  let memory ← Step.read
  Step.write { memory with imported := [] }
  let (project, properties) ← s.effective s.depth document
  let dependencies ←
    (document.1.listed "dependencies" "dependency").filterMapM (declared? project.management properties)
  return { project with dependencies }

end Source

end VersionAudit.Pom
