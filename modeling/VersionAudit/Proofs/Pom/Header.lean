import VersionAudit.Proofs.Pom.Repository

/-!
# What a model says of itself

An effective model is made in three parts: the parents are found, the coordinates and properties of the model are read,
and then the management. The second part asks nobody, and so does reading a dependency.

1. `dependency?`: a declared dependency with its properties resolved.
2. `Header`: the coordinates of a model, and the properties in force. `header?` reads them.
3. `Source.opening`: the first two parts. `effective_succ`: the three parts.
-/

namespace VersionAudit.Pom

open Xml (Element)

variable {σ : Type} {models : Models}

/-! ## Dependencies -/

/-- A declared dependency with its properties resolved. One without group or name is left out. -/
def dependency? (properties : Properties) (e : Element) : Option Dependency := do
  let group ← filled? properties e "groupId"
  let name ← filled? properties e "artifactId"
  let artifact : Artifact :=
    { group, name, version := (valueOf? properties e "version").getD "", kind := (filled? properties e "type").getD "jar"
      classifier := (filled? properties e "classifier").getD "" }
  return { artifact, scope := (filled? properties e "scope").getD ""
           isOptional := Text.lower ((filled? properties e "optional").getD "") == "true"
           exclusions := exclusionsOf properties e }

/-- An entry is read in the same way whatever the memory holds. -/
theorem gives_dependencyOf? (properties : Properties) (e : Element) :
    Gives models (dependencyOf? properties e : Step (Memory σ) _) (.ok (dependency? properties e)) := by
  unfold dependencyOf? dependency?
  -- a missing name is noted, and the entry then left out
  cases filled? properties e "groupId" with
  | none => exact (Gives.warn _).bind_ok (.pure _)
  | some group =>
    cases filled? properties e "artifactId" with
    | none => exact (Gives.warn _).bind_ok (.pure _)
    | some name =>
      dsimp only
      split
      · exact (Gives.warn _).bind_ok (.pure _)
      · exact .pure _

/-! ## Headers -/

/-- The coordinates of a model, and the properties in force. -/
structure Header where
  group : String
  name : String
  version : String
  packaging : String
  properties : Properties

/-- The properties before the group and the version of a model are resolved: those of its parent section, those that its
ancestors and then the model set, and those that it has as a project. -/
def Document.ownProperties (ancestors : List Document) (d : Document) (name : String) : Properties :=
  let known := (ancestors.map (·.1) ++ [d.1]).foldl (fun known r => known.update (propertiesOf r)) (parentProperties d.1)
  let known := (known.insert "project.artifactId" name).insert "project.packaging" ((d.1.value? "packaging").getD "jar")
  let known := setIfGiven known "project.groupId" (inherited? d.1 "groupId")
  setIfGiven known "project.version" (inherited? d.1 "version")

/-- The header of a model. -/
def Document.header? (ancestors : List Document) (d : Document) : Except Failure Header :=
  match d.1.value? "artifactId" with
  | none => .error (.model (.noName d.2.text))
  | some name =>
    let known := d.ownProperties ancestors name
    let version := inherited? d.1 "version"
    let resolvedVersion := (resolve? known version).getD (version.getD "unknown")
    let known := known.insert "project.version" resolvedVersion
    match (resolve? known (inherited? d.1 "groupId")).filter (· ≠ "") with
    | none => .error (.model (.noGroup d.2.text))
    | some group =>
      .ok { group, name, version := resolvedVersion, packaging := (d.1.value? "packaging").getD "jar"
            properties := known.insert "project.groupId" group }

/-- The note on a version that has no meaning. -/
def noteVersion (ancestors : List Document) (d : Document) : Step σ Unit :=
  match d.1.value? "artifactId" with
  | none => pure ()
  | some name =>
    match resolve? (d.ownProperties ancestors name) (inherited? d.1 "version") with
    | some _ => pure ()
    | none => Step.warn ("Could not resolve version " ++ shown (inherited? d.1 "version") ++ " of " ++ d.2.text)

/-- The note about a version shows nothing of the memory. -/
theorem gives_noteVersion (ancestors : List Document) (d : Document) :
    Gives models (noteVersion ancestors d : Step (Memory σ) Unit) (.ok ()) := by
  unfold noteVersion
  cases d.1.value? "artifactId" with
  | none => exact .pure ()
  | some name =>
    dsimp only
    cases resolve? (d.ownProperties ancestors name) (inherited? d.1 "version") with
    | none => exact .warn _
    | some version => exact .pure ()

/-- The project of a model without its dependencies. -/
def Document.projectOf (d : Document) (h : Header) (management : Management) : Project :=
  { group := h.group, name := h.name, version := h.version, packaging := h.packaging, management
    modules := modulesOf d.1
    location := match d.2 with
      | .file location => some location.text
      | .central _ => none }

/-- The management entries that a model lists. -/
def listedEntries (root : Element) : List Element :=
  (root.child? "dependencyManagement").toList.flatMap (·.listed "dependencies" "dependency")

/-- Taking the sections of some models is taking the entries that they list. -/
theorem foldlM_addModel (s : Source σ) (expand : Document → Step (Memory σ) Project) (properties : Properties)
    (m : Managed) (roots : List Element) :
    roots.foldlM (Managed.addModel s expand properties) m =
      (roots.flatMap listedEntries).foldlM (Managed.add s expand properties) m := by
  induction roots generalizing m with
  | nil => rfl
  | cons root roots ih =>
    rw [List.foldlM_cons, List.flatMap_cons, List.foldlM_append]
    exact congrArg (_ >>= ·) (funext ih)

namespace Source

/-- The first two parts: the ancestors of a model, and its header. -/
def opening (s : Source σ) (d : Document) : Step (Memory σ) (List Document × Header) := do
  let ancestors ← s.parents s.depth d
  noteVersion ancestors d
  return (ancestors, ← Step.ofExcept (d.header? ancestors))

/-- The three parts of a model. -/
theorem effective_succ (s : Source σ) (depth : Nat) (d : Document) :
    s.effective (depth + 1) d = (do
      let (ancestors, h) ← s.opening d
      let managed ← ((ancestors.map (·.1) ++ [d.1]).flatMap listedEntries).foldlM
        (Managed.add s (fun bill => do return (← s.effective depth bill).1) h.properties) {}
      return (d.projectOf h managed.effective, h.properties)) := by
  rcases d with ⟨root, origin⟩
  rw [effective.eq_def]
  unfold opening
  conv_rhs => simp only [bind_assoc, pure_bind]
  refine congrArg (s.parents s.depth (root, origin) >>= ·) (funext fun ancestors => ?_)
  unfold Document.header? noteVersion
  dsimp only
  cases root.value? "artifactId" with
  | none => rfl
  | some name =>
    obtain ⟨known, hknown⟩ : ∃ known, known = Document.ownProperties ancestors (root, origin) name := ⟨_, rfl⟩
    dsimp only
    rw [← hknown]
    unfold Document.ownProperties at hknown
    dsimp only at hknown
    rw [← hknown]
    simp only [foldlM_addModel]
    -- the note comes between the two parts of reading the header
    cases resolve? known (inherited? root "version") with
    | some version =>
      dsimp only [Option.getD_some]
      rw [pure_bind]
      cases (resolve? (known.insert "project.version" version) (inherited? root "groupId")).filter (· ≠ "") <;> rfl
    | none =>
      dsimp only [Option.getD_none]
      refine congrArg (Step.warn _ >>= ·) (funext fun _ => ?_)
      rw [pure_bind]
      cases (resolve? (known.insert "project.version" ((inherited? root "version").getD "unknown"))
        (inherited? root "groupId")).filter (· ≠ "") <;> rfl

end Source

end VersionAudit.Pom
