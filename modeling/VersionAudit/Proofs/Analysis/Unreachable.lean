import VersionAudit.Proofs.Analysis.Failures
import VersionAudit.Proofs.Analysis.Waivers
import VersionAudit.Report.Entry

/-!
# Failures that cannot happen

A task fails if it comes to a node that its own filter hides, and a report fails if it is asked for an artifact that
the project's graph does not have. Neither can happen: the graph was flattened with that filter, and only artifacts of
the graph are requested.

1. `within_of_run_mapProject`: whatever the resolver answers, the map of a graph holds admitted nodes only.
2. `Setting.task_eq_unfiltered`: then a task is the same as without the filter, and the look for hidden nodes never
   fails.
3. `exists_entries_of_subset`: every part of a map of requests can be reported.
4. `internal_failures_unreachable`: both for the analysis of any project.
-/

namespace VersionAudit

open Step (Spares)

variable {σ : Type}

/-! ## Nodes of a map -/

/-- The filter admits every node of the map. -/
structure DependencyMap.Within (m : DependencyMap) (f : Filter) : Prop where
  all : ∀ k n, m.all.find? k = some n → f.admits n = true
  direct : ∀ k n, m.direct.find? k = some n → f.admits n = true

theorem Graph.within_flatten (g : Graph) (f : Filter) : (g.flatten f.admits).Within f where
  all := fun _ _ h => (all_flatten_sound h).2.admitted
  direct := fun _ _ h => (all_flatten_sound (all_eq_direct_flatten h)).2.admitted

theorem Resolver.within_of_run_mapProject {r : Resolver σ} {policy : RecoveryPolicy} {p : Project} {f : Filter}
    {l l' : Ledger σ} {m : DependencyMap} (h : (r.mapProject policy p f).run l = (.ok m, l')) : m.Within f := by
  obtain ⟨o, l₁, -, ho⟩ := Step.run_bind_ok_iff.1 h
  rw [Outcome.eq_flatten_of_run_toMap ho]
  exact o.graph.within_flatten f

/-! ## Tasks without their filter -/

/-- The filter that admits every node. -/
def Filter.everything : Filter :=
  .all []

/-- What is hidden from someone. -/
def Failure.IsHidden : Failure → Prop
  | .hidden _ _ => True
  | _ => False

theorem Failure.foreign_isHidden : Foreign IsHidden where
  unknownScope _ := id
  unrequested _ := id
  notUnresolved := id
  unresolved _ _ := id

/-- The resolver itself does not find nodes hidden. -/
structure Resolver.HidesNothing (r : Resolver σ) : Prop where
  node : ∀ n f, Spares Failure.IsHidden (r.node n f)
  versions : ∀ a, Spares Failure.IsHidden (r.versions a)

/-- The resolver over the service finds no node hidden. -/
theorem DepsDev.hidesNothing_resolver (t : Transport σ) (timeout : Int) : (resolver t timeout).HidesNothing where
  node n _ := spares_resolveNode (fun _ => id) (fun _ => id) id n
  versions a := spares_versions (fun _ => id) (fun _ => id) a

/-- Nor does a resolver made of a table. -/
theorem Resolver.hidesNothing_ofTable (t : Table) : (ofTable (σ := σ) t).HidesNothing where
  node n f := by
    unfold ofTable
    dsimp only
    split
    · exact .pure
    · exact .fail id
  versions _ := .pure

namespace Setting

variable {s : Setting σ} {visible : Filter}

theorem checkVisible_of_admits {d : Dependency} {n : Node} (h : visible.admits n = true) :
    checkVisible (σ := σ) visible d n = pure () :=
  if_pos h

theorem checkVisible_everything (d : Dependency) (n : Node) : checkVisible (σ := σ) .everything d n = pure () :=
  checkVisible_of_admits rfl

/-- If all nodes are admitted already, the direct part checks nothing more. -/
theorem directPart_eq_unfiltered (h : s.root.Within visible) (d : Dependency) :
    s.directPart visible d = s.directPart .everything d := by
  unfold directPart
  split
  · rfl
  · rename_i n hn
    rw [checkVisible_of_admits (h.direct _ n hn), checkVisible_everything]

/-- If the filter admits all nodes of the project's graph, a task runs as if there were no filter. -/
theorem task_eq_unfiltered (h : s.root.Within visible) : s.task visible = s.task .everything := by
  funext d
  cases d with
  | none => rfl
  | some d =>
    show s.contribution visible d = s.contribution .everything d
    -- both parts look for the node in the project's graph
    unfold contribution
    rw [directPart_eq_unfiltered h]
    split
    · rfl
    · rename_i n hn
      rw [checkVisible_of_admits (h.all _ n hn), checkVisible_everything]

/-- Such a task never comes to a hidden node. -/
theorem spares_hidden (h : s.root.Within visible) (hhides : s.resolver.HidesNothing) (d : Option Dependency) :
    Spares Failure.IsHidden (s.task visible d) := by
  have hvisible : ∀ d n, Spares Failure.IsHidden (checkVisible (σ := σ) .everything d n) := by
    intro d n
    rw [checkVisible_everything]
    exact .pure
  rw [task_eq_unfiltered h]
  exact spares_task Failure.foreign_isHidden (fun _ _ => id) hhides.node hhides.versions hvisible d

end Setting

/-! ## Reports -/

/-- What an entry says is read off the project's graph. -/
theorem Entry.of_make {a : Analysis} {n : Identity} {groups : List RequestGroup} {e : Entry}
    (h : make a n groups = .ok e) :
    e.name = n ∧ e.groups = groups ∧
      ∃ node, a.root.all.find? n = some node ∧ e.resolved = ⟨node.artifact.version⟩ := by
  unfold make at h
  split at h
  · cases h
  · rename_i node hnode
    cases h
    exact ⟨rfl, rfl, node, hnode, rfl⟩

/-- Every part of the requests of an analysis can be reported. -/
theorem exists_entries_of_subset {resolver : Resolver σ} {registry : Registry} {c : Configuration}
    {reactor : List Project} {project : Project} {l l' : Ledger σ} {a : Analysis}
    (hrun : (analyze resolver registry c reactor project).run l = (.ok (some a), l')) {part : ResolutionMap}
    (hpart : part.entries ⊆ a.requests.entries) :
    ∃ es, a.entries part = .ok es ∧
      List.Forall₂ (fun x e => e.name = x.1 ∧ e.groups = x.2 ∧
        ∃ node, a.root.all.find? x.1 = some node ∧ e.resolved = ⟨node.artifact.version⟩) part.entries es := by
  -- an entry fails only for an artifact without a node, and all that is requested has one
  have hmake : ∀ x ∈ part.entries, ∃ e, Entry.make a x.1 x.2 = .ok e := by
    intro x hx
    obtain ⟨node, hnode, -⟩ := exists_node_of_mem hrun (hpart hx)
    unfold Entry.make
    rw [hnode]
    exact ⟨_, rfl⟩
  obtain ⟨es, hes⟩ := Except.exists_mapM_ok hmake
  exact ⟨es, hes, (Except.mapM_ok_iff.1 hes).imp fun _ _ => Entry.of_make⟩

/-! ## Both -/

/-- The failures that would contradict the construction of an analysis do not happen, whatever the resolver answers.

* As soon as the project's graph is there, the filter of the scope has no part in any task, and unless the resolver
  itself speaks of hidden nodes, no task fails because of one, whatever it is run from.
* If there is an analysis, every part of its requests can be reported: each artifact has a version in the project's
  graph. -/
theorem internal_failures_unreachable (resolver : Resolver σ) (registry : Registry) (c : Configuration)
    (reactor : List Project) (project : Project) (l : Ledger σ) :
    (∀ visible root m, Filter.visible c.scope = .ok visible →
      (resolver.mapProject (Setting.policy c reactor) project visible).run l = (.ok root, m) →
      ∀ s : Setting σ, s = { resolver, configuration := c, project, reactor, root } →
        s.task visible = s.task .everything ∧
          (resolver.HidesNothing → ∀ d k e, ((s.task visible d).run k).1 = .error e → ¬ e.IsHidden)) ∧
    ∀ a l', (analyze resolver registry c reactor project).run l = (.ok (some a), l') →
      ∀ part : ResolutionMap, part.entries ⊆ a.requests.entries →
        ∃ es, a.entries part = .ok es ∧
          List.Forall₂ (fun x e => e.name = x.1 ∧ e.groups = x.2 ∧
            ∃ node, a.root.all.find? x.1 = some node ∧ e.resolved = ⟨node.artifact.version⟩) part.entries es := by
  refine ⟨?_, fun a l' hrun part hpart => exists_entries_of_subset hrun hpart⟩
  rintro visible root m - hroot s rfl
  have hwithin : root.Within visible := Resolver.within_of_run_mapProject hroot
  exact ⟨Setting.task_eq_unfiltered hwithin, fun hhides d => Setting.spares_hidden hwithin hhides d⟩

/-- The tasks of the sample, and the report on its utility. -/
theorem internal_failures_unreachable_utility : ∃ visible m a l', Filter.visible Sample.configuration.scope = .ok visible ∧
    ((Resolver.ofTable Sample.table).mapProject (Setting.policy Sample.configuration []) Sample.project visible).run
      ⟨(), []⟩ = (.ok a.root, m) ∧
    (∀ d k e, (((Sample.setting a).task visible d).run k).1 = .error e → ¬ e.IsHidden) ∧
    Sample.audit = (.ok (some a), l') ∧
    ∃ es, a.entries a.requests = .ok es ∧ ∃ e ∈ es, e.name = .ofArtifact (Sample.utility "1.0") := by
  obtain ⟨a, l', hrun, groups, hgroups⟩ := Sample.exists_of_lists Sample.lists_utility
  obtain ⟨hproject, -, visible, m, -, -, hvisible, hroot, -, -⟩ := analyze_ok hrun
  obtain ⟨htasks, hreports⟩ := internal_failures_unreachable (.ofTable Sample.table) (.ofList []) Sample.configuration []
    Sample.project ⟨(), []⟩
  have hsetting : Sample.setting a =
      { resolver := .ofTable Sample.table, configuration := Sample.configuration, project := Sample.project,
        reactor := [], root := a.root } := by
    rw [← hproject]
    rfl
  obtain ⟨-, hspares⟩ := htasks visible a.root m hvisible hroot _ hsetting
  obtain ⟨es, hes, hentries⟩ := hreports a l' hrun a.requests (List.Subset.refl _)
  -- the utility is among the groups, and its entry stands at the same place
  obtain ⟨i, hi, hentry⟩ := List.mem_iff_getElem.1 hgroups
  have hlength : i < es.length := hentries.length_eq ▸ hi
  refine ⟨visible, m, a, l', hvisible, hroot, hspares (Resolver.hidesNothing_ofTable _), hrun, es, hes, es[i],
    List.getElem_mem hlength, ?_⟩
  obtain ⟨hname, -⟩ := hentries.get hi hlength
  rw [List.get_eq_getElem, List.get_eq_getElem, hentry] at hname
  exact hname

end VersionAudit
