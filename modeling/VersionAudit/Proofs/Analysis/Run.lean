import VersionAudit.Analysis
import VersionAudit.Proofs.Except
import VersionAudit.Proofs.Graph.Flatten
import VersionAudit.Proofs.Graph.Outcome

/-!
# The run of an analysis

What is known when an analysis was given.

1. `coherent_of_run_mapProject`, `coherent_of_run_mapNode`: a map of dependencies is coherent, whatever the
   resolver answers.
2. `analyze_ok`: the parts that a run of `analyze` is made of.
3. `resolutionMap_ok`: every task gave a contribution, and the map is that of all contributions.
4. `Sample`: a small project whose audit gives an analysis.
-/

namespace VersionAudit

variable {σ : Type}

/-! ## Maps of dependencies -/

theorem Outcome.coherent_of_run_toMap {policy : RecoveryPolicy} {f : Filter} {o : Outcome} {l l' : Ledger σ}
    {m : DependencyMap} (h : (o.toMap policy f : Step σ DependencyMap).run l = (.ok m, l')) : m.Coherent := by
  rw [eq_flatten_of_run_toMap h]
  exact Graph.coherent_flatten _ _

namespace Resolver

theorem coherent_of_run_mapProject {r : Resolver σ} {policy : RecoveryPolicy} {p : Project} {f : Filter}
    {l l' : Ledger σ} {m : DependencyMap} (h : (r.mapProject policy p f).run l = (.ok m, l')) : m.Coherent := by
  rcases Step.run_bind_ok_iff.1 h with ⟨o, l₁, -, ho⟩
  exact Outcome.coherent_of_run_toMap ho

theorem coherent_of_run_mapNode {r : Resolver σ} {policy : RecoveryPolicy} {n : Node} {f : Filter}
    {l l' : Ledger σ} {m : DependencyMap} (h : (r.mapNode policy n f).run l = (.ok m, l')) : m.Coherent := by
  rcases Step.run_bind_ok_iff.1 h with ⟨o, l₁, -, ho⟩
  exact Outcome.coherent_of_run_toMap ho

end Resolver

/-! ## The parts of an analysis -/

/-- What the tasks of an analysis share. -/
def Analysis.setting (a : Analysis) (resolver : Resolver σ) (c : Configuration) (reactor : List Project) :
    Setting σ :=
  { resolver, configuration := c, project := a.project, reactor, root := a.root }

/-- The bench that the tasks find: the source as the resolution of the project left it, and an assignment. -/
def Ledger.bench (l : Ledger σ) (assignment : Assignment) : Ledger (Bench σ) :=
  ⟨⟨l.state, assignment⟩, l.notes⟩

/-- An analysis comes from a map of the project's graph and a run of all tasks on what that left. -/
theorem analyze_ok {resolver : Resolver σ} {registry : Registry} {c : Configuration} {reactor : List Project}
    {project : Project} {l l' : Ledger σ} {a : Analysis}
    (h : (analyze resolver registry c reactor project).run l = (.ok (some a), l')) :
    a.project = project ∧ ∃ assignment visible m finish,
      Assignment.make registry c.rules c.defaultStrategy = .ok assignment ∧
      Filter.visible c.scope = .ok visible ∧
      (resolver.mapProject (Setting.policy c reactor) project visible).run l = (.ok a.root, m) ∧
      ((a.setting resolver c reactor).resolutionMap visible).run (m.bench assignment) = (.ok a.requests, finish) ∧
      a.assignment = finish.state.assignment := by
  unfold analyze at h
  -- a project that is skipped gives no analysis, whatever the reason
  split at h
  · simp at h
  · split at h
    · rcases Step.run_bind_ok_iff.1 h with ⟨_, _, -, h⟩
      simp at h
    · split at h
      · rcases Step.run_bind_ok_iff.1 h with ⟨_, _, -, h⟩
        simp at h
      · simp only [Step.run_bind_ok_iff, Step.run_ofExcept, Step.run_get, Step.run_set, Step.run_pure,
          Prod.mk.injEq, Except.ok.injEq, Option.some.injEq] at h
        obtain ⟨assignment, _, ⟨hmake, rfl⟩, visible, _, ⟨hvisible, rfl⟩, root, m, hroot, _, _, ⟨rfl, rfl⟩,
          _, _, ⟨-, rfl⟩, requests, _, ⟨hresult, -⟩, rfl, -⟩ := h
        refine ⟨rfl, assignment, visible, m, _, ?_, hvisible, hroot, Prod.ext hresult rfl, rfl⟩
        exact Except.of_mapError_ok hmake

/-! ## The tasks of an analysis -/

/-- The task of a scanned dependency as it is run: its failure is kept at its place. -/
def Setting.attempt (s : Setting σ) (visible : Filter) (d : Option Dependency) : Step (Bench σ) TaskEnd := do
  return (d, ← Step.outcome (s.task visible d))

theorem Setting.resolutionMap_eq (s : Setting σ) (visible : Filter) :
    s.resolutionMap visible = s.scanned.mapM (s.attempt visible) >>= fun ends => Step.ofExcept (collect ends) :=
  rfl

/-- An attempt never fails: it tells how the task ended. -/
theorem Setting.run_attempt (s : Setting σ) (visible : Filter) (d : Option Dependency) (l : Ledger (Bench σ)) :
    (s.attempt visible d).run l = (.ok (d, ((s.task visible d).run l).1), ((s.task visible d).run l).2) := rfl

/-- A map comes from tasks of which none failed, and holds all they gave. -/
theorem collect_ok {ends : List TaskEnd} {m : ResolutionMap} (h : collect ends = .ok m) :
    (∀ e ∈ ends, e.2 = .ok e.requests) ∧ m = .ofList (ends.flatMap (·.requests)) := by
  unfold collect at h
  split at h
  · cases h
  · rename_i hnone
    refine ⟨?_, (Except.ok.inj h).symm⟩
    rintro ⟨d, r⟩ he
    -- a failed task would have been among those that failed
    cases r with
    | ok requests => rfl
    | error failure => exact absurd (List.any_eq_true.2 ⟨_, he, rfl⟩) hnone

/-- The map of a project's requests comes from one run of the tasks, one after the other. -/
theorem Setting.resolutionMap_ok {s : Setting σ} {visible : Filter} {l l' : Ledger (Bench σ)} {m : ResolutionMap}
    (h : (s.resolutionMap visible).run l = (.ok m, l')) :
    ∃ ends, Step.RunsAll (s.attempt visible) s.scanned l ends l' ∧ (∀ e ∈ ends, e.2 = .ok e.requests) ∧
      m = .ofList (ends.flatMap (·.requests)) := by
  rw [resolutionMap_eq] at h
  rcases Step.run_bind_ok_iff.1 h with ⟨ends, l₁, hruns, hcollect⟩
  rw [Step.run_ofExcept, Prod.mk.injEq] at hcollect
  rcases hcollect with ⟨hcollect, rfl⟩
  exact ⟨ends, Step.run_mapM_ok_iff.1 hruns, collect_ok hcollect⟩

/-- What every transitive request ensures holds of all requests of a transitive part. -/
theorem Setting.ensures_transitivePart_of {s : Setting σ} {I : Bench σ → Prop} {Q : Identity × VersionRequest → Prop}
    (hsource : ∀ {α : Type} (step : Step σ α), Step.Ensures I (onSource step) fun _ => True)
    (hrequest : ∀ requester n, Step.Ensures I (s.transitiveRequest requester n) fun o => ∀ e, o = some e → Q e)
    (d : Dependency) (n : Node) : Step.Ensures I (s.transitivePart d n) fun es => ∀ e ∈ es, Q e := by
  have hrequests : ∀ f, Step.Ensures I (s.transitiveRequests d n f) fun es => ∀ e ∈ es, Q e := by
    intro f
    unfold transitiveRequests
    refine .bind (hsource _) fun map _ => ?_
    refine .bind (.ofExcept (Q := fun _ => True) fun _ _ => trivial) fun nodes _ => ?_
    exact .filterMapM fun m _ => hrequest _ m
  unfold transitivePart
  refine .bind (.ofExcept (Q := fun _ => True) fun _ _ => trivial) fun f _ => ?_
  refine .bind (.outcome (hrequests f)) fun r hr => ?_
  split
  · exact .pure (hr _ rfl)
  · -- a model that cannot be read leaves nothing but a note
    have hnothing : Step.Ensures I (pure []) fun es => ∀ e ∈ es, Q e := .pure (by simp)
    split
    · split
      · exact .bind .warn fun _ _ => hnothing
      · exact hnothing
    · exact .fail

/-! ## A library built with a newer version -/

namespace Sample

def library : Artifact :=
  { group := "org", name := "library", version := "1.0" }

def utility (version : String) : Artifact :=
  { group := "org", name := "utility", version }

/-- The project declares the library only. -/
def project : Project :=
  { group := "org", name := "app", version := "1", dependencies := [{ artifact := library }] }

/-- The library was built with version 2.0 of the utility, of which the project manages version 1.0. -/
def table : Resolver.Table where
  projects := [(project.text,
    { nodes :=
        [{ artifact := library, dependency := some { artifact := library } },
          { artifact := utility "1.0", dependency := some { artifact := utility "1.0" }, managed := 1 }],
      root := [0, 1] })]
  nodes := [("org:library:1.0",
    some
      { nodes := [{ artifact := utility "2.0", dependency := some { artifact := utility "2.0" } }],
        root := [0] })]

def configuration : Configuration :=
  { scope := "compile", defaultStrategy := some "apr" }

def audit : Except Failure (Option Analysis) × Ledger Unit :=
  (analyze (.ofTable table) (.ofList []) configuration [] project).run ⟨(), []⟩

/-- What the tasks of the audit share. -/
def setting (a : Analysis) : Setting Unit :=
  a.setting (.ofTable table) configuration []

/-- Whether the audit gives an analysis that lists an artifact. -/
def lists (n : Identity) : Bool :=
  match audit.1 with
  | .ok (some a) => a.requests.entries.any (·.1 = n)
  | _ => false

theorem exists_of_lists {n : Identity} (h : lists n = true) :
    ∃ a l', audit = (.ok (some a), l') ∧ ∃ groups, (n, groups) ∈ a.requests.entries := by
  unfold lists at h
  split at h
  · rename_i a ha
    rcases List.any_eq_true.1 h with ⟨⟨n', groups⟩, hmem, hn⟩
    obtain rfl : n' = n := of_decide_eq_true hn
    exact ⟨a, audit.2, Prod.ext ha rfl, groups, hmem⟩
  · cases h

theorem lists_utility : lists (.ofArtifact (utility "1.0")) = true := by
  decide +kernel

end Sample

end VersionAudit
