import VersionAudit.Proofs.Analysis.Sparing
import VersionAudit.Proofs.DepsDev.Declared
import VersionAudit.Proofs.DepsDev.Failing
import VersionAudit.Proofs.Version.Stamps

/-!
# Versions and their specifications

The version chosen for a declared dependency is held once more against the specification it was chosen for. Where the
two are asked of the same specification they agree. A specification that ends in a time stamp is asked in its base
version the second time, which admits nothing but itself.

1. `Failure.IsInconsistent`: the failure that the two do not agree. Only the direct part of a task ends with it.
2. `Setting.run_directRequest`: when it does.
3. `Setting.inconsistent_iff_stamped`: which tasks of a project end with it.
-/

namespace VersionAudit

open Step (Spares)

/-- The specification of a dependency does not admit its version. -/
def Failure.IsInconsistent : Failure → Prop
  | .inconsistent _ _ => True
  | _ => False

/-- Inconsistent versions are not the business of the transitive part. -/
theorem Failure.foreign_isInconsistent : Foreign IsInconsistent where
  unknownScope _ := id
  unrequested _ := id
  notUnresolved := id
  unresolved _ _ := id

/-! ## Asking again -/

/-- The version that the model of an artifact is asked for. -/
theorem Artifact.version_of_model (a : Artifact) :
    a.model.version = a.version ∧ a.model.group = a.group ∧ a.model.name = a.name := by
  unfold model
  split
  · exact ⟨rfl, rfl, rfl⟩
  · exact ⟨rfl, rfl, rfl⟩

section Runs

open DepsDev

variable {σ : Type} {t : Transport σ} {timeout : Int}

/-- Which versions are admitted depends on group, name and specification only. -/
theorem DepsDev.versions_congr {a b : Artifact} (hversion : a.version = b.version) (hgroup : a.group = b.group)
    (hname : a.name = b.name) : versions t timeout a = versions t timeout b := by
  unfold versions
  rw [hversion, hgroup, hname]

/-- What the check asks for: the versions that the base version of the specification admits. -/
theorem versions_asked (a : Artifact) :
    versions t timeout (if a.model.isSnapshot then a.model.withVersion a.model.baseVersion else a.model) =
      versions t timeout (a.withVersion a.baseVersion) := by
  obtain ⟨hversion, hgroup, hname⟩ := a.version_of_model
  have hbase : a.model.baseVersion = a.baseVersion := by
    unfold Artifact.baseVersion
    rw [hversion]
  split
  · exact versions_congr hbase hgroup hname
  · rename_i hplain
    -- no snapshot, so there is no time stamp to replace
    refine versions_congr ?_ hgroup hname
    have hnone : Artifact.beforeTimestamp? [] a.version.toList = none := by
      unfold Artifact.isSnapshot at hplain
      rw [hversion, Bool.or_eq_true, not_or] at hplain
      simpa using hplain.2
    show a.model.version = a.baseVersion
    unfold Artifact.baseVersion
    rw [hnone, hversion]

variable {s : Setting (Memory σ)} (hs : s.resolver = DepsDev.resolver t timeout)

include hs in
/-- The direct request fails if the version is not among those that the specification admits. -/
theorem Setting.run_directRequest {d : Dependency} {n : Node} {l : Ledger (Bench (Memory σ))} {vs : List Version}
    (hvs : ((versions t timeout (d.artifact.withVersion d.artifact.baseVersion)).run ⟨l.state.source, l.notes⟩).1 =
      .ok vs) {e : Failure} :
    ((s.directRequest d n).run l).1 = .error e ↔
      vs.any (· == (⟨n.artifact.version⟩ : Version)) = false ∧ e = .inconsistent d n.artifact.version := by
  have hresolver : s.resolver.versions = versions t timeout := congrArg Resolver.versions hs
  obtain ⟨l', hasked⟩ : ∃ l', (onSource (versions t timeout (d.artifact.withVersion d.artifact.baseVersion))).run l =
      (.ok vs, l') := by
    unfold onSource
    rw [Step.run_within, hvs]
    exact ⟨_, rfl⟩
  unfold directRequest
  dsimp only
  rw [hresolver, versions_asked, Step.run_bind, hasked]
  dsimp only
  -- the version is looked for among those of the specification in its base version
  cases hany : vs.any (· == (⟨n.artifact.version⟩ : Version)) with
  | false => exact ⟨fun h => ⟨rfl, (Except.error.inj h).symm⟩, fun h => by rw [h.2]; rfl⟩
  | true =>
    obtain ⟨conflict, l'', hconflict⟩ := exists_run_inConflict s n (.ofArtifact d.artifact) ⟨n.artifact.version⟩
      ⟨n.artifact.version⟩ l'
    simp only [Bool.not_true, Bool.false_eq_true, if_false, Step.run_bind, hconflict, Step.run_pure]
    simp

include hs in
/-- So does the direct part of a task, if the node is visible. -/
theorem Setting.run_directPart {visible : Filter} {d : Dependency} {n : Node}
    (hn : s.root.direct.find? (.ofArtifact d.artifact) = some n) (hadmits : visible.admits n = true)
    {l : Ledger (Bench (Memory σ))} {vs : List Version}
    (hvs : ((versions t timeout (d.artifact.withVersion d.artifact.baseVersion)).run ⟨l.state.source, l.notes⟩).1 =
      .ok vs) {e : Failure} (he : e.IsInconsistent) :
    ((s.directPart visible d).run l).1 = .error e ↔
      vs.any (· == (⟨n.artifact.version⟩ : Version)) = false ∧ e = .inconsistent d n.artifact.version := by
  have hvisible : checkVisible (σ := Memory σ) visible d n = pure () := if_pos hadmits
  have hpart : s.directPart visible d = s.directRequest d n >>= fun request => pure [request] := by
    unfold directPart
    rw [hn]
    dsimp only
    rw [hvisible, pure_bind]
  rw [hpart, Spares.error_bind_iff (fun request => Spares.pure) he, run_directRequest hs hvs]

include hs in
theorem Setting.spares_node (n : Node) (f : Filter) : Spares Failure.IsInconsistent (s.resolver.node n f) := by
  rw [hs]
  exact spares_resolveNode (fun _ => id) (fun _ => id) id n

/-- In the base version a specification admits the versions that fit it, unless it ends in a time stamp. Then the only
version that fits is the specification itself, and is not admitted. -/
theorem DepsDev.Fits.any_versions {d : Dependency}
    (htrim : Text.trim d.artifact.version = d.artifact.version) {v : String} (hv : Fits t timeout d v)
    {l : Ledger (Memory σ)} (hl : l.state.Faithful t timeout) :
    ∃ vs, ((versions t timeout (d.artifact.withVersion d.artifact.baseVersion)).run l).1 = .ok vs ∧
      (vs.any (· == (⟨v⟩ : Version)) = false ↔ d.artifact.IsStamped) := by
  obtain ⟨vs, hvs, hmem⟩ := hv l hl
  by_cases hstamped : d.artifact.IsStamped
  · -- the specification can be read, so it is plain, and so is its base version
    obtain ⟨range, hread⟩ : ∃ range, VersionRange.read d.artifact.version = .ok range := by
      cases hread : VersionRange.read d.artifact.version with
      | ok range => exact ⟨range, rfl⟩
      | error fault =>
        unfold versions at hvs
        rw [hread] at hvs
        cases hvs
    have hplain := hstamped.plain htrim hread
    rw [versions_of_plain hplain, htrim, Step.run_pure] at hvs
    have hsingle : vs = [⟨d.artifact.version⟩] := (Except.ok.inj hvs).symm
    rw [hsingle, List.mem_singleton] at hmem
    -- so only the base version is listed, which the version with the time stamp is not equal to
    obtain ⟨hbase, hbaseTrim⟩ := hstamped.plain_baseVersion htrim hplain
    have hasked : versions t timeout (d.artifact.withVersion d.artifact.baseVersion) =
        pure [⟨Text.trim d.artifact.baseVersion⟩] := versions_of_plain hbase
    have hother := hstamped.beq_baseVersion (getLast?_ne_newline htrim)
    refine ⟨[⟨d.artifact.baseVersion⟩], ?_, iff_of_true ?_ hstamped⟩
    · rw [hasked, hbaseTrim, Step.run_pure]
    · rw [hmem, List.any_cons, hother]
      rfl
  -- without a time stamp the specification is asked as it is
  · have hbase : d.artifact.baseVersion = d.artifact.version := by
      unfold Artifact.IsStamped at hstamped
      unfold Artifact.baseVersion
      rw [Option.not_isSome_iff_eq_none.1 hstamped]
    refine ⟨vs, by rw [hbase]; exact hvs, iff_of_false ?_ hstamped⟩
    rw [Bool.not_eq_false, List.any_eq_true]
    exact ⟨_, hmem, BEq.rfl⟩

/-! ## All tasks -/

/-- Which tasks fail because a version does not meet its specification. With a service that does not change its mind,
for declared dependencies that are told apart by their identities and have no blanks around their specifications, the
task of a dependency fails so just if it is directly below the project and its specification ends in a time stamp.
All other specifications admit the versions chosen for them. -/
theorem Setting.inconsistent_iff_stamped (ht : t.Steady) (hs : s.resolver = DepsDev.resolver t timeout)
    {visible : Filter} {l m : Ledger (Memory σ)} (hl : l.state.Left t timeout)
    (hroot : (s.resolver.mapProject (policy s.configuration s.reactor) s.project visible).run l = (.ok s.root, m))
    (hdistinct : s.project.dependencies.Pairwise fun d e =>
      (Identity.ofArtifact d.artifact == Identity.ofArtifact e.artifact) = false)
    (htrim : ∀ d ∈ s.project.dependencies, Text.trim d.artifact.version = d.artifact.version) {d : Dependency}
    (hd : d ∈ s.project.dependencies) {b : Bench (Memory σ)} (hb : b.source.Left t timeout) (notes : List Note) :
    (∃ e v, ((s.task visible (some d)).run ⟨b, notes⟩).1 = .error (.inconsistent e v)) ↔
      (s.root.direct.find? (.ofArtifact d.artifact)).isSome = true ∧ d.artifact.IsStamped := by
  have hpart : ∀ e v, ((s.task visible (some d)).run ⟨b, notes⟩).1 = .error (.inconsistent e v) ↔
      ((s.directPart visible d).run ⟨b, notes⟩).1 = .error (.inconsistent e v) :=
    fun e v => contribution_error_iff Failure.foreign_isInconsistent (spares_node hs)
      (spares_checkVisible (fun _ _ => id) visible) d trivial
  simp only [hpart]
  cases hn : s.root.direct.find? (.ofArtifact d.artifact) with
  | none =>
    have hnothing : s.directPart visible d = pure [] := by
      unfold directPart
      rw [hn]
    refine iff_of_false ?_ (by simp)
    rintro ⟨e, v, h⟩
    rw [hnothing, Step.run_pure] at h
    cases h
  | some n =>
    rw [hs] at hroot
    obtain ⟨hidentity, hadmits, d', hd', v, hfits, hartifact⟩ := exists_declared ht htrim (hl.faithful ht) hroot hn
    -- the node is the dependency itself, since no other one has its identity
    obtain rfl : d' = d := by
      by_contra hne
      have hsymm : Std.Symm fun d e : Dependency =>
          (Identity.ofArtifact d.artifact == Identity.ofArtifact e.artifact) = false :=
        ⟨fun d e h => BEq.comm.trans h⟩
      have hother := hdistinct.forall hd' hd hne
      unfold Node.identity at hidentity
      rw [hartifact] at hidentity
      exact Bool.false_ne_true (hother.symm.trans hidentity)
    have hversion : n.artifact.version = v := by
      rw [hartifact]
      rfl
    obtain ⟨vs, hvs, hany⟩ := hfits.any_versions (htrim d' hd') (l := ⟨b.source, notes⟩) (hb.faithful ht)
    have hdirect : ∀ e v, ((s.directPart visible d').run ⟨b, notes⟩).1 = .error (.inconsistent e v) ↔
        d'.artifact.IsStamped ∧ Failure.inconsistent e v = .inconsistent d' n.artifact.version := by
      intro e v
      have hfailure : (Failure.inconsistent e v).IsInconsistent := trivial
      rw [run_directPart (l := ⟨b, notes⟩) hs hn hadmits hvs hfailure, hversion, hany]
    simp only [hdirect]
    constructor
    · rintro ⟨_, _, hstamped, -⟩
      exact ⟨rfl, hstamped⟩
    · rintro ⟨-, hstamped⟩
      exact ⟨d', _, hstamped, rfl⟩

end Runs

/-! ## A published snapshot -/

namespace DepsDev.Nightly

/-- A snapshot as it was published. -/
def nightly : Dependency :=
  { artifact := { group := "g", name := "nightly", version := "1.0-20200101.120000-1" } }

/-- A library in any version below 2.0. -/
def library : Dependency :=
  { artifact := { group := "g", name := "library", version := "[1.0,2.0)" } }

def project : Project :=
  { group := "com.example", name := "app", version := "1", dependencies := [nightly, library] }

/-- The graph of an artifact without dependencies. -/
def alone (a : Artifact) : Json :=
  .object [("nodes", .array [.object [
    ("versionKey", .object [("name", .string a.path), ("version", .string a.version)]),
    ("relation", .string "SELF")]])]

/-- The description of a package with the given versions. -/
def published (versions : List String) : Json :=
  .object [("versions", .array (versions.map fun v => .object [("versionKey", .object [("version", .string v)])]))]

/-- A service that knows three versions of the library and the graphs of both artifacts. -/
def service : Transport Unit :=
  ⟨fun q s =>
    if q.address = graphAddress nightly.artifact then (.answer 200 (alone nightly.artifact), s)
    else if q.address = graphAddress (library.artifact.withVersion "1.5") then
      (.answer 200 (alone (library.artifact.withVersion "1.5")), s)
    else if q.address = packageAddress "g" "library" then (.answer 200 (published ["1.0", "1.5", "2.0"]), s)
    else (.answer 404 .null, s)⟩

theorem steady_service : service.Steady :=
  fun _ _ _ => rfl

def everything : Filter :=
  .scopes Scope.all

def setting (root : DependencyMap) : Setting (Memory Unit) :=
  { resolver := resolver service 30, configuration := {}, project, reactor := [], root }

/-- The map of the project's graph and the ledger that its resolution leaves. -/
def mapped : Except Failure DependencyMap × Ledger (Memory Unit) :=
  ((resolver service 30).mapProject (Setting.policy {} []) project everything).run ⟨{ transport := () }, []⟩

/-- What is remembered once the project is resolved. -/
def remembered : Memory Unit :=
  (((resolver service 30).project project everything).run ⟨{ transport := () }, []⟩).2.state

/-- The end of the task of a dependency, run after the project is resolved. -/
def ending (root : DependencyMap) (d : Dependency) : Except Failure Contribution :=
  (((setting root).task everything (some d)).run ⟨⟨remembered, { fallback := .default, rules := [] }⟩, []⟩).1

theorem distinct_dependencies : project.dependencies.Pairwise fun d e =>
    (Identity.ofArtifact d.artifact == Identity.ofArtifact e.artifact) = false := by
  decide +kernel

theorem trimmed_dependencies : ∀ d ∈ project.dependencies, Text.trim d.artifact.version = d.artifact.version := by
  decide +kernel

/-- The task of the snapshot fails and that of the library does not. -/
theorem inconsistent_iff_stamped_nightly : ∃ root m, mapped = (.ok root, m) ∧
    (∃ e v, ending root nightly = .error (.inconsistent e v)) ∧
    ¬ ∃ e v, ending root library = .error (.inconsistent e v) := by
  have hdirect : (mapped.1.toOption.any fun root =>
      (root.direct.find? (.ofArtifact nightly.artifact)).isSome) = true := by
    decide +kernel
  have hstamped : nightly.artifact.IsStamped := by
    unfold Artifact.IsStamped
    decide +kernel
  have hplain : ¬ library.artifact.IsStamped := by
    unfold Artifact.IsStamped
    decide +kernel
  rcases hroot : mapped with ⟨_ | root, m⟩
  · rw [hroot] at hdirect
    cases hdirect
  · rw [hroot] at hdirect
    unfold mapped at hroot
    -- the condition holds of each declared dependency; one of them is stamped
    have hiff : ∀ d ∈ project.dependencies, (∃ e v, ending root d = .error (.inconsistent e v)) ↔
        (root.direct.find? (.ofArtifact d.artifact)).isSome = true ∧ d.artifact.IsStamped :=
      fun d hd => Setting.inconsistent_iff_stamped (s := setting root) steady_service rfl (.fresh ()) hroot
        distinct_dependencies trimmed_dependencies hd (.project project everything (.fresh ())) []
    exact ⟨root, m, rfl, (hiff nightly (by decide)).2 ⟨hdirect, hstamped⟩,
      fun hfails => hplain ((hiff library (by decide)).1 hfails).2⟩

/-- The dependency and the resolved version of a failure that is an inconsistency. -/
def inconsistency? : Except Failure Contribution → Option (Dependency × String)
  | .error (.inconsistent e v) => some (e, v)
  | _ => none

theorem eq_of_inconsistency? {x : Except Failure Contribution} {e : Dependency} {v : String}
    (h : inconsistency? x = some (e, v)) : x = .error (.inconsistent e v) := by
  unfold inconsistency? at h
  split at h
  · cases h
    rfl
  · cases h

/-- The task of the snapshot fails although the map of the project's graph was built, the dependencies have different
identities and there are no blanks around their specifications. -/
theorem exists_inconsistent : ∃ root m, mapped = (.ok root, m) ∧
    (project.dependencies.Pairwise fun d e =>
      (Identity.ofArtifact d.artifact == Identity.ofArtifact e.artifact) = false) ∧
    (∀ d ∈ project.dependencies, Text.trim d.artifact.version = d.artifact.version) ∧
    ∃ d ∈ project.dependencies, ∃ e v, ending root d = .error (.inconsistent e v) := by
  have hfails : (mapped.1.toOption.any fun root => (inconsistency? (ending root nightly)).isSome) = true := by
    decide +kernel
  rcases hroot : mapped with ⟨_ | root, m⟩
  · rw [hroot] at hfails
    cases hfails
  · rw [hroot] at hfails
    obtain ⟨⟨e, v⟩, hev⟩ := Option.isSome_iff_exists.1 hfails
    exact ⟨root, m, rfl, distinct_dependencies, trimmed_dependencies, nightly, by decide, e, v,
      eq_of_inconsistency? hev⟩

end DepsDev.Nightly

end VersionAudit
