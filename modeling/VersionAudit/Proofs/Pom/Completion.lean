import VersionAudit.Proofs.Pom.Imports

/-!
# Completing dependencies

A declared dependency without a version, or without a scope, takes it from the entry of the same group and name. An entry
for another type or classifier can stand in the way of the one that it asks for.

1. `completed?`: a dependency completed by management. `exists_manages_of_run_project`: the dependencies of a project.
2. `Imports.ranked`: what imports supply, as one list in which a later entry comes before an earlier one.
3. `gets_entry_iff`: a dependency gets the version and the scope of the entry that it asks for just if the entry that
   stands behind all others of the group and name has the same.
-/

namespace VersionAudit.Pom

open Xml (Element)

variable {σ : Type} {models : Models}

/-! ## Dependencies of a project -/

/-- The scope that is meant by a scope that may be missing. -/
def usualScope (scope : String) : String :=
  if scope = "" then "compile" else scope

/-- The dependencies that a model declares. -/
def declaredBy (properties : Properties) (root : Element) : List Dependency :=
  (root.listed "dependencies" "dependency").filterMap (dependency? properties)

/-- A declared dependency completed by management. One without a version is left out. -/
def completed? (management : Management) (d : Dependency) : Option Dependency :=
  let entry := management.find? d.artifact.path
  let version :=
    if d.artifact.version = "" then (entry.map (·.artifact.version)).getD "" else d.artifact.version
  if version = "" then none
  else some
    { artifact := d.artifact.withVersion version
      scope := usualScope (if d.scope = "" then (entry.map (·.scope)).getD "" else d.scope)
      isOptional := d.isOptional
      exclusions := if d.exclusions.isEmpty then (entry.map (·.exclusions)).getD [] else d.exclusions }

namespace Source

variable {s : Source σ}

/-- A dependency is completed in the same way whatever the memory holds. -/
theorem gives_complete (management : Management) (d : Dependency) :
    Gives models (complete management d : Step (Memory σ) _) (.ok (completed? management d)) := by
  unfold complete completed?
  dsimp only
  generalize (if d.artifact.version = "" then _ else d.artifact.version) = version
  by_cases hversion : version = ""
  · rw [if_pos hversion, if_pos hversion]
    exact (Gives.warn _).bind_ok (.pure _)
  · rw [if_neg hversion, if_neg hversion]
    exact .pure _

/-- A declared dependency is read and completed in the same way whatever the memory holds. -/
theorem gives_declared? (management : Management) (properties : Properties) (e : Element) :
    Gives models (declared? management properties e : Step (Memory σ) _)
      (.ok ((dependency? properties e).bind (completed? management))) := by
  unfold declared?
  refine (gives_dependencyOf? properties e).bind_ok ?_
  cases dependency? properties e with
  | none => exact .pure none
  | some d => exact gives_complete management d

/-- Making a project when no bill is known. -/
def make (s : Source σ) (d : Document) : Step (Memory σ) Project := do
  let (project, properties) ← s.effective s.depth d
  let dependencies ← (d.1.listed "dependencies" "dependency").filterMapM (declared? project.management properties)
  return { project with dependencies }

/-- A project is made with no bill known yet. -/
theorem run_project (s : Source σ) (d : Document) (l : Ledger (Memory σ)) :
    (s.project d).run l = (s.make d).run ⟨{ l.state with imported := [] }, l.notes⟩ := by
  unfold project
  rw [Step.run_bind, Step.run_read]
  dsimp only
  rw [Step.run_bind, Step.run_write]
  rfl

/-- The management of a project, and its dependencies completed by it. -/
theorem exists_manages_of_run_project (hr : s.repository.Offers models) {d : Document} {l l' : Ledger (Memory σ)}
    {p : Project} (hl : l.state.Faithful models) (hrun : (s.project d).run l = (.ok p, l')) :
    ∃ h after, s.Manages models [] d h p.management after ∧
      p = { d.projectOf h p.management with
        dependencies := (declaredBy h.properties d.1).filterMap (completed? p.management) } := by
  rw [run_project] at hrun
  unfold make at hrun
  -- first the management is found, which shows nothing of the memory but that it stays faithful
  obtain ⟨⟨made, properties⟩, k, heffective, hrun⟩ := Step.run_bind_ok_iff.1 hrun
  obtain ⟨hk, hmade, -⟩ := makes_effective hr s.depth d _ _ _ (by exact hl) heffective
  obtain ⟨-, h, hproject, rfl, hmanages⟩ := hmade made properties rfl
  obtain ⟨dependencies, k', hdependencies, hrun⟩ := Step.run_bind_ok_iff.1 hrun
  cases hrun
  -- then each dependency is completed by it
  have hgives := Gives.filterMapM (gives_declared? made.management h.properties)
    (d.1.listed "dependencies" "dependency") k hk
  rw [hdependencies] at hgives
  obtain rfl := Except.ok.inj hgives.1
  refine ⟨h, _, hmanages, ?_⟩
  unfold declaredBy
  rw [List.filterMap_filterMap]
  conv_lhs => rw [hproject]
  rfl

end Source

/-! ## Entries in order -/

/-- All entries that imports supply. Later ones come before earlier ones. -/
def Imports.ranked : Imports → List Dependency
  | done => []
  | passed rest => rest.ranked
  | opened _ declared within rest => within.ranked ++ declared ++ rest.ranked
  | broken .. => []

/-- The last of the ranked entries with a property is the one that the imports supply. -/
theorem Imports.lastFor_ranked (p : Dependency → Bool) (imports : Imports) :
    lastFor p imports.ranked = imports.supplied p := by
  induction imports with
  | done => rfl
  | passed rest ih => exact ih
  | opened bill declared within rest ihwithin ihrest =>
    unfold ranked supplied
    rw [lastFor_append, lastFor_append, ihwithin, ihrest]
  | broken bill within ih => rfl

/-- The last entry with a property is one of the entries and has it. -/
theorem mem_of_lastFor {p : Dependency → Bool} {entries : List Dependency} {d : Dependency}
    (h : lastFor p entries = some d) : d ∈ entries ∧ p d = true := by
  unfold lastFor at h
  rw [List.findRev?_eq_find?_reverse] at h
  exact ⟨List.mem_reverse.1 (List.mem_of_find?_eq_some h), List.find?_some h⟩

theorem exists_lastFor {p : Dependency → Bool} {entries : List Dependency} {d : Dependency} (hd : d ∈ entries)
    (hp : p d = true) : ∃ last, lastFor p entries = some last := by
  unfold lastFor
  rw [List.findRev?_eq_find?_reverse]
  exact Option.isSome_iff_exists.1 (List.find?_isSome.2 ⟨d, List.mem_reverse.2 hd, hp⟩)

/-- Entries without a version are left out. -/
theorem version_ne_of_mem_entriesOf {properties : Properties} {listed : List Element} {d : Dependency}
    (h : d ∈ entriesOf properties listed) : d.artifact.version ≠ "" := by
  simpa using (List.mem_filter.1 h).2

/-- Every entry that is supplied has a version. -/
theorem Source.Follows.version_ne {s : Source σ} {known bills after : List Coordinates} {imports : Imports} {all : Bool}
    (h : s.Follows models known bills imports after all) : ∀ d ∈ imports.ranked, d.artifact.version ≠ "" := by
  induction h with
  | done => simp [Imports.ranked]
  | again old rest ih => exact ih
  | missing new none rest ih => exact ih
  | opened new some reads within rest ihwithin ihrest =>
    -- what is supplied is an entry of the bill itself, or of the bills that it imports
    obtain ⟨n, ancestors, -, -, rfl⟩ := reads
    intro d hd
    rcases List.mem_append.1 hd with hd | hd
    · rcases List.mem_append.1 hd with hd | hd
      · exact ihwithin d hd
      · exact version_ne_of_mem_entriesOf (List.mem_of_mem_filter hd)
    · exact ihrest d hd
  | unread new present => simp [Imports.ranked]
  | broken new some reads within ih => simp [Imports.ranked]

/-! ## Types and classifiers -/

/-- Whether an entry is for the group, name, type and classifier of an artifact. -/
def isSame (a : Artifact) (d : Dependency) : Bool :=
  d.artifact.group == a.group && d.artifact.name == a.name && d.artifact.kind == a.kind &&
    d.artifact.classifier == a.classifier

/-- An entry for the same artifact goes by the same name. -/
theorem isNamed_of_isSame {a : Artifact} {d : Dependency} (h : isSame a d = true) : isNamed a.path d = true := by
  simp only [isSame, Bool.and_eq_true, beq_iff_eq] at h
  obtain ⟨⟨⟨hgroup, hname⟩, -⟩, -⟩ := h
  unfold isNamed Artifact.path
  rw [hgroup, hname]
  exact beq_self_eq_true _

/-- A dependency without a version gets that of the entry, and likewise the scope. -/
def Gets (management : Management) (d entry : Dependency) : Prop :=
  ∃ d', completed? management d = some d' ∧
    (d.artifact.version = "" → d'.artifact.version = entry.artifact.version) ∧
    (d.scope = "" → d'.scope = usualScope entry.scope)

/-- A dependency that gets what one entry says gets what another one says just if they say the same. -/
theorem Gets.iff {management : Management} {d winner : Dependency} (h : Gets management d winner) (entry : Dependency) :
    Gets management d entry ↔ (d.artifact.version = "" → winner.artifact.version = entry.artifact.version) ∧
      (d.scope = "" → usualScope winner.scope = usualScope entry.scope) := by
  obtain ⟨d', hcompleted, hversion, hscope⟩ := h
  constructor
  · rintro ⟨d'', hcompleted', hversion', hscope'⟩
    obtain rfl := Option.some_inj.1 (hcompleted.symm.trans hcompleted')
    exact ⟨fun hmissing => (hversion hmissing).symm.trans (hversion' hmissing),
      fun hmissing => (hscope hmissing).symm.trans (hscope' hmissing)⟩
  · rintro ⟨hversion', hscope'⟩
    exact ⟨d', hcompleted, fun hmissing => (hversion hmissing).trans (hversion' hmissing),
      fun hmissing => (hscope hmissing).trans (hscope' hmissing)⟩

/-- The entry for the group and name gives what is missing. -/
theorem gets_of_find? {management : Management} {d winner : Dependency}
    (hfind : management.find? d.artifact.path = some winner) (hversion : winner.artifact.version ≠ "") :
    Gets management d winner := by
  unfold Gets completed?
  rw [hfind]
  dsimp only [Option.map_some, Option.getD_some]
  have hsome : (if d.artifact.version = "" then winner.artifact.version else d.artifact.version) ≠ "" := by
    split
    · exact hversion
    · assumption
  rw [if_neg hsome]
  refine ⟨_, rfl, fun hmissing => ?_, fun hmissing => ?_⟩
  · exact if_pos hmissing
  · exact congrArg usualScope (if_pos hmissing)

namespace Source

variable {s : Source σ}

/-- Whether a dependency gets what the entry for its type and classifier says. -/
theorem gets_entry_iff (hr : s.repository.Offers models) {document : Document} {l l' : Ledger (Memory σ)} {p : Project}
    (hl : l.state.Faithful models) (hrun : (s.project document).run l = (.ok p, l')) :
    ∃ h entries imports after, s.Reads models document h entries ∧
      s.Follows models [] (billsIn entries) imports after true ∧
      p.dependencies = (declaredBy h.properties document.1).filterMap (completed? p.management) ∧
      ∀ d ∈ declaredBy h.properties document.1, ∀ entry,
        lastFor (isSame d.artifact) (imports.ranked ++ declaredIn entries) = some entry →
          (Gets p.management d entry ↔ ∃ winner,
            lastFor (isNamed d.artifact.path) (imports.ranked ++ declaredIn entries) = some winner ∧
              (d.artifact.version = "" → winner.artifact.version = entry.artifact.version) ∧
              (d.scope = "" → usualScope winner.scope = usualScope entry.scope)) := by
  obtain ⟨h, after, ⟨entries, imports, hreads, hfollows, hfind⟩, hproject⟩ := exists_manages_of_run_project hr hl hrun
  refine ⟨h, entries, imports, after, hreads, hfollows, congrArg Project.dependencies hproject, fun d _ entry hentry => ?_⟩
  -- the entry itself is for the group and name, so some entry stands behind all others
  obtain ⟨hmem, hsame⟩ := mem_of_lastFor hentry
  obtain ⟨winner, hwinner⟩ := exists_lastFor hmem (isNamed_of_isSame hsame)
  have hversion : winner.artifact.version ≠ "" := by
    rcases List.mem_append.1 (mem_of_lastFor hwinner).1 with hmem | hmem
    · exact hfollows.version_ne winner hmem
    · obtain ⟨n, ancestors, -, -, rfl⟩ := hreads
      exact version_ne_of_mem_entriesOf (List.mem_of_mem_filter hmem)
  have hgets : Gets p.management d winner := by
    refine gets_of_find? ?_ hversion
    rw [hfind, ← imports.lastFor_ranked, ← lastFor_append]
    exact hwinner
  rw [hgets.iff entry]
  constructor
  · exact fun hsame => ⟨winner, hwinner, hsame⟩
  · rintro ⟨winner', hwinner', hsame⟩
    obtain rfl := Option.some_inj.1 (hwinner.symm.trans hwinner')
    exact hsame

end Source

/-! ## A jar and its test jar -/

namespace Mixed

def element (more : List Element) : Element :=
  .mk "dependency" "" ([.mk "groupId" "g" [], .mk "artifactId" "lib" []] ++ more)

/-- A model that manages a jar and, behind it, its test jar, and that declares the jar. -/
def document : Document :=
  (.mk "project" "" [.mk "groupId" "g" [], .mk "artifactId" "app" [], .mk "version" "1" [],
    .mk "dependencyManagement" "" [.mk "dependencies" "" [element [.mk "version" "1.0" []],
      element [.mk "version" "2.0" [], .mk "type" "test-jar" [], .mk "scope" "test" []]]],
    .mk "dependencies" "" [element []]], .file ⟨["pom.xml"]⟩)

/-- There are no other models. -/
def source : Source Unit where
  files := ⟨[], ⟨[]⟩⟩
  repository := .holding []

def jar : Dependency := { artifact := { group := "g", name := "lib", version := "1.0" }, scope := "" }

def testJar : Dependency :=
  { artifact := { group := "g", name := "lib", version := "2.0", kind := "test-jar" }, scope := "test" }

/-- The jar as it is declared. -/
def declared : Dependency := { artifact := { group := "g", name := "lib", version := "" }, scope := "" }

def header : Header :=
  { group := "g", name := "app", version := "1", packaging := "jar"
    properties := ⟨[("project.artifactId", "app"), ("project.packaging", "jar"), ("project.groupId", "g"),
      ("project.version", "1")]⟩ }

/-- The jar has got the version and the scope of its test jar. -/
def project : Project :=
  { group := "g", name := "app", version := "1", location := some "/pom.xml", management := ⟨[("g:lib", testJar)]⟩
    dependencies := [{ artifact := { group := "g", name := "lib", version := "2.0" }, scope := "test" }] }

theorem run_project : (source.project document).run ⟨{ repository := () }, []⟩ = (.ok project, ⟨{ repository := () }, []⟩) :=
  rfl

theorem reads_document : source.Reads (held []) document header [jar, testJar] :=
  ⟨0, [], .oldest rfl, rfl, rfl⟩

theorem gets_entry_iff_mixed :
    source.repository.Offers (held []) ∧ ({ repository := () } : Memory Unit).Faithful (held []) ∧
      (source.project document).run ⟨{ repository := () }, []⟩ = (.ok project, ⟨{ repository := () }, []⟩) ∧
      ∃ h entries imports after, source.Reads (held []) document h entries ∧
        source.Follows (held []) [] (billsIn entries) imports after true ∧
        project.dependencies = (declaredBy h.properties document.1).filterMap (completed? project.management) ∧
        ∀ d ∈ declaredBy h.properties document.1, ∀ entry,
          lastFor (isSame d.artifact) (imports.ranked ++ declaredIn entries) = some entry →
            (Gets project.management d entry ↔ ∃ winner,
              lastFor (isNamed d.artifact.path) (imports.ranked ++ declaredIn entries) = some winner ∧
                (d.artifact.version = "" → winner.artifact.version = entry.artifact.version) ∧
                (d.scope = "" → usualScope winner.scope = usualScope entry.scope)) := by
  have hoffers : source.repository.Offers (held []) := @offers_held Unit [] (by decide)
  have hfresh : ({ repository := () } : Memory Unit).Faithful (held []) := faithful_fresh (held []) ()
  exact ⟨hoffers, hfresh, run_project, Source.gets_entry_iff hoffers hfresh run_project⟩

/-- The entry for the jar is there, and the jar does not get its version. -/
theorem not_gets_entry :
    (source.project document).run ⟨{ repository := () }, []⟩ = (.ok project, ⟨{ repository := () }, []⟩) ∧
      source.Reads (held []) document header [jar, testJar] ∧
      source.Follows (held []) [] (billsIn [jar, testJar]) .done [] true ∧
      declared ∈ declaredBy header.properties document.1 ∧
      lastFor (isSame declared.artifact) (Imports.done.ranked ++ declaredIn [jar, testJar]) = some jar ∧
      ¬ Gets project.management declared jar := by
  refine ⟨run_project, reads_document, .done, by decide +kernel, by decide +kernel, ?_⟩
  rintro ⟨d, hd, hversion, -⟩
  cases hd
  exact absurd (hversion rfl) (by decide)

end Mixed

end VersionAudit.Pom
