import VersionAudit.Proofs.Analysis.Sparing
import VersionAudit.Proofs.Analysis.TaskOrder
import VersionAudit.Proofs.DepsDev.Failing

/-!
# How the tasks of a project fail

The tasks of a project give a map of all that they contribute, or one failure for all of them. In whatever order they
are run, the failure tells of each failed task once, in the order of the scan: what could not be resolved by its name,
everything else by a message.

1. `Setting.EndAs`: the end of every task, at its own place.
2. `failures`, `lackedBy`, `toldBy`: what failed, and how it is told.
3. `run_contribution_unreadable`: a model that cannot be read leaves the direct part of a task.
4. `Setting.resolutionMapIn_all_or_nothing`: the map, or all failures.
-/

namespace VersionAudit

open Step (Spares)

variable {σ : Type}

/-! ## The ends of the tasks -/

namespace Setting

variable {s : Setting σ} {visible : Filter} {order : List (Option Dependency × Nat)} {l : Ledger (Bench σ)}

/-- The scanned dependencies with their places in the order in which their tasks are run, each with the ledger that its
task finds. -/
def startsIn (s : Setting σ) (visible : Filter) (order : List (Option Dependency × Nat)) (l : Ledger (Bench σ)) :
    List ((Option Dependency × Nat) × Ledger (Bench σ)) :=
  Step.starts (s.attemptAt visible) order l

/-- The ends of the tasks that are run in the order: at the place of each dependency, in the order of the scan, the end
of its task on the ledger that it finds. -/
structure EndAs (s : Setting σ) (visible : Filter) (order : List (Option Dependency × Nat)) (l : Ledger (Bench σ))
    (ends : List TaskEnd) : Prop where
  dependencies : ends.map (·.1) = s.scanned
  run : ∀ d i k, ((d, i), k) ∈ s.startsIn visible order l → ends[i]? = some (d, ((s.task visible d).run k).1)

theorem map_fst_startsIn (s : Setting σ) (visible : Filter) (order : List (Option Dependency × Nat))
    (l : Ledger (Bench σ)) : (s.startsIn visible order l).map (·.1) = order :=
  Step.map_fst_starts _ _ _

/-- The task at each place is run. -/
theorem exists_startIn_iff (horder : order.Perm s.scanned.zipIdx) {d : Option Dependency} {i : Nat} :
    (∃ k, ((d, i), k) ∈ s.startsIn visible order l) ↔ s.scanned[i]? = some d := by
  have hmem : (d, i) ∈ (s.startsIn visible order l).map (·.1) ↔ s.scanned[i]? = some d := by
    rw [map_fst_startsIn, horder.mem_iff, List.mem_zipIdx_iff_getElem?]
  simpa using hmem

/-- Every end is that of a task. -/
theorem EndAs.exists_start {ends : List TaskEnd} (h : s.EndAs visible order l ends)
    (horder : order.Perm s.scanned.zipIdx) {e : TaskEnd} (he : e ∈ ends) :
    ∃ i k, ((e.1, i), k) ∈ s.startsIn visible order l ∧ e.2 = ((s.task visible e.1).run k).1 := by
  obtain ⟨i, hi⟩ := List.mem_iff_getElem?.1 he
  have hplace : s.scanned[i]? = some e.1 := by
    rw [← h.dependencies, List.getElem?_map, hi]
    rfl
  obtain ⟨k, hk⟩ := (exists_startIn_iff horder).2 hplace
  have hend := Option.some.inj ((h.run _ _ _ hk).symm.trans hi)
  exact ⟨i, k, hk, (congrArg Prod.snd hend).symm⟩

/-- The tasks of any order give what is collected from their ends. -/
theorem run_resolutionMapIn (s : Setting σ) (visible : Filter) (horder : order.Perm s.scanned.zipIdx)
    (l : Ledger (Bench σ)) :
    ∃ ends, s.EndAs visible order l ends ∧ ((s.resolutionMapIn visible order).run l).1 = collect ends := by
  -- no attempt fails, since a failure is the end of its task
  obtain ⟨es, l', hruns⟩ := Step.exists_runsAll (f := s.attemptAt visible) (fun _ _ => ⟨_, _, rfl⟩) order l
  have hes : es = (s.startsIn visible order l).map fun x => (x.1.2, (x.1.1, ((s.task visible x.1.1).run x.2).1)) := by
    refine (List.map_inj_right fun _ _ => Except.ok.inj).1 (hruns.map_ok.trans ?_)
    rw [List.map_map]
    rfl
  have hplaces : (es.map (·.1)).Perm (List.range order.length) := by
    have hkeys : es.map (·.1) = ((s.startsIn visible order l).map (·.1)).map (·.2) := by
      rw [hes, List.map_map, List.map_map]
      rfl
    rw [hkeys, map_fst_startsIn, horder.length_eq, List.length_zipIdx, List.range_eq_range', ← List.zipIdx_map_snd]
    exact horder.map _
  have hmem : ∀ d i k, ((d, i), k) ∈ s.startsIn visible order l → (i, (d, ((s.task visible d).run k).1)) ∈ es := by
    intro d i k hk
    rw [hes]
    exact List.mem_map.2 ⟨_, hk, rfl⟩
  refine ⟨(List.range order.length).filterMap (⟨es⟩ : OrderedMap Nat TaskEnd).find?, ⟨?_, ?_⟩, ?_⟩
  · refine List.ext_getElem? fun i => Option.ext fun d => ?_
    rw [List.getElem?_map, Option.map_eq_some_iff, ← exists_startIn_iff horder]
    constructor
    · rintro ⟨e, he, rfl⟩
      rw [getElem?_places hplaces, hes] at he
      obtain ⟨⟨⟨d, j⟩, k⟩, hk, heq⟩ := List.mem_map.1 he
      obtain ⟨rfl, rfl⟩ := Prod.mk.inj heq
      exact ⟨k, hk⟩
    · rintro ⟨k, hk⟩
      exact ⟨_, (getElem?_places hplaces).2 (hmem d i k hk), rfl⟩
  · intro d i k hk
    exact (getElem?_places hplaces).2 (hmem d i k hk)
  · unfold resolutionMapIn
    rw [Step.run_bind, Step.run_mapM_ok_iff.2 hruns]
    simp only [Step.run_ofExcept]

/-- Tasks run with their places end as they do without. -/
theorem runsAll_attemptAt {ds : List (Option Dependency)} {ends : List TaskEnd} {l' : Ledger (Bench σ)}
    (h : Step.RunsAll (s.attempt visible) ds l ends l') (i : Nat) :
    Step.RunsAll (s.attemptAt visible) (ds.zipIdx i) l ((ends.zipIdx i).map fun e => (e.2, e.1)) l' := by
  induction h generalizing i with
  | nil l => exact .nil l
  | cons head _ ih =>
    rw [List.zipIdx_cons, List.zipIdx_cons, List.map_cons]
    refine .cons ?_ (ih (i + 1))
    unfold attemptAt
    rw [Step.run_bind, head]
    rfl

/-- In their own order the tasks give the map of the project, or its failure. -/
theorem run_resolutionMap_eq (s : Setting σ) (visible : Filter) (l : Ledger (Bench σ)) :
    ((s.resolutionMap visible).run l).1 = ((s.resolutionMapIn visible s.scanned.zipIdx).run l).1 := by
  obtain ⟨ends, l', hruns⟩ := Step.exists_runsAll (f := s.attempt visible) (fun _ _ => ⟨_, _, rfl⟩) s.scanned l
  -- told with their places in their own order, the ends are put where they are
  have hput : (List.range s.scanned.zipIdx.length).filterMap
      (⟨ends.zipIdx.map fun e => (e.2, e.1)⟩ : OrderedMap Nat TaskEnd).find? = ends := by
    have hlength : s.scanned.zipIdx.length = ends.zipIdx.length := by
      rw [List.length_zipIdx, List.length_zipIdx, ← hruns.length_eq]
    rw [hlength]
    exact (filterMap_find?_of_perm (List.Perm.refl _) id).trans (List.map_id _)
  unfold resolutionMapIn
  rw [resolutionMap_eq, Step.run_bind, Step.run_bind, Step.run_mapM_ok_iff.2 hruns,
    Step.run_mapM_ok_iff.2 (runsAll_attemptAt hruns 0)]
  simp only [Step.run_ofExcept, hput]

end Setting

/-! ## What failed -/

/-- The tasks that failed, with their failures, in the order of the scan. -/
def failures (ends : List TaskEnd) : List (Option Dependency × Failure) :=
  ends.filterMap fun e =>
    match e.2 with
    | .ok _ => none
    | .error failure => some (e.1, failure)

/-- The dependencies of a failure that says what could not be resolved. -/
def Failure.unresolved? : Failure → Option (List Dependency)
  | .unresolved dependencies => some dependencies
  | _ => none

/-- All that could not be resolved. -/
def lackedBy (failed : List (Option Dependency × Failure)) : List String :=
  (failed.filterMap (·.2.unresolved?)).flatten.map (·.text)

/-- All other failures, each told of its dependency. -/
def toldBy (failed : List (Option Dependency × Failure)) : List String :=
  (failed.filter (·.2.unresolved?.isNone)).map fun x => (x.1.map (·.text)).getD "None" ++ ": " ++ x.2.message

/-- A failure is told of a task just if the task ended in it. -/
theorem mem_failures_iff {ends : List TaskEnd} {d : Option Dependency} {e : Failure} :
    (d, e) ∈ failures ends ↔ (d, .error e) ∈ ends := by
  unfold failures
  rw [List.mem_filterMap]
  constructor
  · rintro ⟨⟨d', r⟩, hmem, heq⟩
    cases r with
    | ok es => cases heq
    | error failure =>
      cases heq
      exact hmem
  · intro hmem
    exact ⟨_, hmem, rfl⟩

/-- Nothing failed just if every task gave a contribution. -/
theorem failures_eq_nil_iff {ends : List TaskEnd} : failures ends = [] ↔ ∀ e ∈ ends, ∃ es, e.2 = .ok es := by
  constructor
  · rintro hnone ⟨d, e | es⟩ he
    · rw [← mem_failures_iff, hnone] at he
      cases he
    · exact ⟨es, rfl⟩
  · intro hall
    refine List.eq_nil_iff_forall_not_mem.2 fun ⟨d, e⟩ he => ?_
    obtain ⟨es, hes⟩ := hall _ (mem_failures_iff.1 he)
    cases hes

/-- The texts are made distinct. -/
theorem Failure.distinctTexts_eq (texts : List String) : distinctTexts texts = texts.eraseDups := by
  induction texts using List.reverseRecOn with
  | nil => rfl
  | append_singleton texts t ih =>
    have hkept : texts.eraseDups.contains t = texts.contains t := by
      simp
    unfold distinctTexts at ih ⊢
    rw [List.foldl_append, ih, List.eraseDups_append, List.foldl_cons, List.foldl_nil, hkept]
    -- the last text is left out if it is there before
    by_cases ht : texts.contains t
    · have hnothing : [t].removeAll texts = [] := by
        simpa [List.removeAll] using ht
      rw [if_pos ht, hnothing, List.eraseDups_nil, List.append_nil]
    · have hsame : [t].removeAll texts = [t] := by
        simpa [List.removeAll] using ht
      rw [if_neg ht, hsame]
      rfl

/-- A failed task has a message, unless its failure names what could not be resolved. -/
theorem TaskEnd.message?_error (d : Option Dependency) (e : Failure) :
    message? (d, .error e) =
      if e.unresolved?.isNone then some ((d.map (·.text)).getD "None" ++ ": " ++ e.message) else none := by
  cases e <;> cases d <;> rfl

theorem TaskEnd.unresolved_error (d : Option Dependency) (e : Failure) :
    unresolved (d, .error e) = (e.unresolved?.getD []).map (·.text) := by
  cases e <;> rfl

/-- The messages are those of the failed tasks. -/
theorem filterMap_message? (ends : List TaskEnd) : ends.filterMap (·.message?) = toldBy (failures ends) := by
  induction ends with
  | nil => rfl
  | cons e ends ih =>
    rcases e with ⟨d, failure | es⟩
    · have hcons : failures ((d, .error failure) :: ends) = (d, failure) :: failures ends := rfl
      rw [List.filterMap_cons, TaskEnd.message?_error, ih, hcons]
      unfold toldBy
      rw [List.filter_cons]
      cases failure.unresolved? <;> rfl
    · exact ih

/-- What is lacking is what the failed tasks lack. -/
theorem flatMap_unresolved (ends : List TaskEnd) : ends.flatMap (·.unresolved) = lackedBy (failures ends) := by
  induction ends with
  | nil => rfl
  | cons e ends ih =>
    rcases e with ⟨d, failure | es⟩
    · have hcons : failures ((d, .error failure) :: ends) = (d, failure) :: failures ends := rfl
      rw [List.flatMap_cons, TaskEnd.unresolved_error, ih, hcons]
      unfold lackedBy
      rw [List.filterMap_cons]
      cases failure.unresolved? with
      | none => rfl
      | some ds => exact (List.map_append ..).symm
    · exact ih

/-- All contributions are collected, unless some task failed. -/
theorem exists_collect_iff {ends : List TaskEnd} :
    (∃ m, collect ends = .ok m) ↔ ∀ e ∈ ends, ∃ es, e.2 = .ok es := by
  constructor
  · rintro ⟨m, hm⟩ e he
    exact ⟨_, (collect_ok hm).1 e he⟩
  -- no task is a failure, so that collecting does not stop
  · intro hall
    have hnone : ends.any (·.isFailure) = false := by
      rw [List.any_eq_false]
      intro e he
      obtain ⟨es, hes⟩ := hall e he
      unfold TaskEnd.isFailure
      rw [hes]
      exact Bool.false_ne_true
    unfold collect
    rw [hnone]
    exact ⟨_, rfl⟩

/-- Then all failures are. -/
theorem collect_error {ends : List TaskEnd} {e : Failure} (h : collect ends = .error e) :
    e = .incomplete (toldBy (failures ends)).eraseDups (lackedBy (failures ends)).eraseDups := by
  unfold collect at h
  split at h
  · rw [← Except.error.inj h, filterMap_message?, flatMap_unresolved]
    unfold Failure.ofParts
    rw [Failure.distinctTexts_eq, Failure.distinctTexts_eq]
  · cases h

theorem eq_nil_of_eraseDups {texts : List String} (h : texts.eraseDups = []) : texts = [] := by
  refine List.eq_nil_iff_forall_not_mem.2 fun t ht => ?_
  rw [← List.mem_eraseDups, h] at ht
  cases ht

/-- Every failure is told, if those that say what could not be resolved name something. -/
theorem not_silent {failed : List (Option Dependency × Failure)} (hsome : failed ≠ [])
    (hnamed : ∀ d e, (d, e) ∈ failed → e ≠ .unresolved []) : ¬ (toldBy failed = [] ∧ lackedBy failed = []) := by
  rintro ⟨htold, hlacked⟩
  obtain ⟨⟨d, e⟩, hmem⟩ := List.exists_mem_of_ne_nil _ hsome
  -- a failure either has a message or names what it lacks
  cases hkind : e.unresolved? with
  | none =>
    have htells : (d, e) ∈ failed.filter (·.2.unresolved?.isNone) := by
      rw [List.mem_filter, hkind]
      exact ⟨hmem, rfl⟩
    rw [List.map_eq_nil_iff.1 htold] at htells
    cases htells
  | some ds =>
    have heq : e = .unresolved ds := by
      cases e <;> cases hkind
      rfl
    have hlacks : ds ∈ failed.filterMap (·.2.unresolved?) := List.mem_filterMap.2 ⟨_, hmem, hkind⟩
    have hnil : ds = [] := List.flatten_eq_nil_iff.1 (List.map_eq_nil_iff.1 hlacked) ds hlacks
    exact hnamed d e hmem (by rw [heq, hnil])

/-! ## Models that cannot be read -/

namespace Setting

variable {s : Setting σ} {visible : Filter} {order : List (Option Dependency × Nat)}

/-- The task of a dependency comes to the dependency's own graph, that of a node limited by a filter: the direct part
gives something, the dependency is in the project's graph and visible there, and it passes something on. -/
structure ReachesOwnGraph (s : Setting σ) (visible : Filter) (d : Dependency) (k : Ledger (Bench σ))
    (direct : Contribution) (n : Node) (f : Filter) : Prop where
  direct : ((s.directPart visible d).run k).1 = .ok direct
  node : s.root.all.find? (.ofArtifact d.artifact) = some n
  visible : visible.admits n = true
  scope : d.scope ≠ "system"
  filter : Filter.passedOn d.scope = .ok f

/-- A model below a dependency that cannot be read leaves its transitive part empty. -/
theorem run_transitivePart_unreadable {d : Dependency} {n : Node} {f : Filter} {l : Ledger (Bench σ)} {e : Failure}
    (hf : Filter.passedOn d.scope = .ok f) (hown : s.ownMap d n f l = .error e) (he : e.isUnreadableModel = true) :
    ((s.transitivePart d n).run l).1 = .ok [] := by
  have hrequests : ((s.transitiveRequests d n f).run l).1 = .error e := by
    unfold transitiveRequests
    exact congrArg Prod.fst (Step.run_bind_error_iff.2 (.inl (Prod.ext hown rfl)))
  unfold transitivePart
  rw [Step.run_bind, Step.run_ofExcept, hf]
  dsimp only
  rw [Step.run_bind, Step.run_outcome, hrequests]
  dsimp only
  rw [if_pos he]
  split
  · rfl
  · rfl

/-- A model that cannot be read leaves the direct part of a task. -/
theorem run_contribution_unreadable {d : Dependency} {k : Ledger (Bench σ)} {direct : Contribution} {n : Node}
    {f : Filter} (hreaches : s.ReachesOwnGraph visible d k direct n f) {e : Failure}
    (hown : s.ownMap d n f ((s.directPart visible d).run k).2 = .error e) (he : e.isUnreadableModel = true) :
    ((s.contribution visible d).run k).1 = .ok direct := by
  have htransitive := run_transitivePart_unreadable hreaches.filter hown he
  have hvisible : checkVisible (σ := σ) visible d n = pure () := if_pos hreaches.visible
  rcases hdirect : (s.directPart visible d).run k with ⟨r, m⟩
  rw [hdirect] at htransitive
  obtain rfl : r = .ok direct := by
    rw [← hreaches.direct, hdirect]
  rcases hpart : (s.transitivePart d n).run m with ⟨r', m'⟩
  rw [hpart] at htransitive
  obtain rfl : r' = .ok [] := htransitive
  -- the direct part, the node, its visibility and scope, and then the transitive part
  unfold contribution
  rw [Step.run_bind, hdirect]
  dsimp only
  rw [hreaches.node]
  dsimp only
  rw [hvisible, pure_bind, if_neg hreaches.scope, Step.run_bind, hpart]
  exact congrArg _ (List.append_nil direct)

end Setting

/-! ## All or nothing -/

/-- What the resolver says of dependencies that it could not resolve names some. -/
structure Resolver.NamesUnresolved (r : Resolver σ) : Prop where
  node : ∀ n f, Spares (· = .unresolved []) (r.node n f)
  versions : ∀ a, Spares (· = .unresolved []) (r.versions a)

/-- The failure that names nothing does not arise in the analysis itself. -/
theorem Failure.foreign_unresolved_nil : Foreign (· = .unresolved []) where
  unknownScope _ := nofun
  unrequested _ := nofun
  notUnresolved := nofun
  unresolved _ hne heq := hne (Failure.unresolved.inj heq)

/-- The resolver over the service names what it cannot resolve. -/
theorem DepsDev.namesUnresolved_resolver (t : Transport σ) (timeout : Int) : (resolver t timeout).NamesUnresolved where
  node n _ := spares_resolveNode (fun _ => nofun) (fun _ => nofun) nofun n
  versions a := spares_versions (fun _ => nofun) (fun _ => nofun) a

/-- So does a resolver made of a table. -/
theorem Resolver.namesUnresolved_ofTable (t : Table) : (ofTable (σ := σ) t).NamesUnresolved where
  node n f := by
    unfold ofTable
    dsimp only
    split
    · exact .pure
    · exact .fail nofun
  versions _ := .pure

/-- The failure of all tasks says something, since that of each does. -/
theorem Setting.EndAs.collect_ne_silent {s : Setting σ} {visible : Filter} {order : List (Option Dependency × Nat)}
    {l : Ledger (Bench σ)} {ends : List TaskEnd} (h : s.EndAs visible order l ends)
    (horder : order.Perm s.scanned.zipIdx) (hnames : s.resolver.NamesUnresolved) :
    collect ends ≠ .error (.incomplete [] []) := by
  intro hsilent
  have hfailed : failures ends ≠ [] := by
    rw [Ne, failures_eq_nil_iff, ← exists_collect_iff, hsilent]
    rintro ⟨m, hm⟩
    cases hm
  -- each failed task was run from some ledger, and from none it fails without a name
  have hnamed : ∀ d e, (d, e) ∈ failures ends → e ≠ .unresolved [] := by
    intro d e he
    obtain ⟨i, k, -, htask⟩ := h.exists_start horder (mem_failures_iff.1 he)
    have hvisible := spares_checkVisible (σ := σ) (E := (· = .unresolved [])) (fun _ _ => nofun) visible
    have hspares := spares_task Failure.foreign_unresolved_nil (fun _ _ => nofun) hnames.node hnames.versions hvisible d
    exact hspares k e htask.symm
  obtain ⟨htold, hlacked⟩ := Failure.incomplete.inj (collect_error hsilent)
  exact not_silent hfailed hnamed ⟨eq_nil_of_eraseDups htold.symm, eq_nil_of_eraseDups hlacked.symm⟩

/-- A project's map is complete or not given at all. In whatever order the tasks of a project are run:

* There is a map just if no task fails.
* Otherwise the failure says of all failed tasks, in the order of the scan, what could not be resolved and what else
  went wrong, each thing once, and it says something.
* A dependency's own graph whose model cannot be read does not make its task fail. What the project asks of the
  dependency itself is kept, and if there is a map, it is in it.

In their own order the tasks are those of the map itself. -/
theorem Setting.resolutionMapIn_all_or_nothing (s : Setting σ) (visible : Filter)
    {order : List (Option Dependency × Nat)} (horder : order.Perm s.scanned.zipIdx) (l : Ledger (Bench σ))
    {x : Except Failure ResolutionMap} (hx : ((s.resolutionMapIn visible order).run l).1 = x) :
    (order = s.scanned.zipIdx → ((s.resolutionMap visible).run l).1 = x) ∧ ∃ ends, s.EndAs visible order l ends ∧
      ((∃ m, x = .ok m) ↔ ∀ e ∈ ends, ∃ es, e.2 = .ok es) ∧
      (∀ e, x = .error e →
        e = .incomplete (toldBy (failures ends)).eraseDups (lackedBy (failures ends)).eraseDups) ∧
      (s.resolver.NamesUnresolved → x ≠ .error (.incomplete [] [])) ∧
      ∀ d i k direct n f e, ((some d, i), k) ∈ s.startsIn visible order l →
        s.ReachesOwnGraph visible d k direct n f → s.ownMap d n f ((s.directPart visible d).run k).2 = .error e →
        e.isUnreadableModel = true →
        ends[i]? = some (some d, .ok direct) ∧ ∀ m, x = .ok m → ∀ t, s.GivesDirectly d t → m.Holds t := by
  obtain ⟨ends, hends, hrun⟩ := s.run_resolutionMapIn visible horder l
  rw [hx] at hrun
  -- the ends of the tasks decide about everything, since the map is collected from them
  refine ⟨?_, ends, hends, ?_, ?_, ?_, ?_⟩
  · rintro rfl
    rw [run_resolutionMap_eq, hx]
  · rw [hrun]
    exact exists_collect_iff
  · intro e he
    exact collect_error (hrun.symm.trans he)
  · intro hnames
    rw [hrun]
    exact hends.collect_ne_silent horder hnames
  · intro d i k direct n f e hk hreaches hown he
    have hend : ends[i]? = some (some d, .ok direct) := by
      rw [hends.run _ _ _ hk]
      exact congrArg (fun r => some (some d, r)) (run_contribution_unreadable hreaches hown he)
    refine ⟨hend, fun m hm t ht => ?_⟩
    obtain ⟨-, rfl⟩ := collect_ok (hrun.symm.trans hm)
    obtain ⟨q, hq, hnames⟩ := (directPart_ok (Prod.ext hreaches.direct rfl) t).2 ht
    exact ResolutionMap.holds_ofList_iff.2 ⟨q, List.mem_flatMap.2 ⟨_, List.mem_of_getElem? hend, hq⟩, hnames⟩

/-! ## A project with three failures -/

namespace Troubled

def library (name : String) : Dependency :=
  { artifact := { group := "org", name, version := "1.0" } }

/-- The driver is not published in its version. The plugin and the addon both need what cannot be resolved, and the
model of the frame cannot be read. -/
def project : Project :=
  { group := "org", name := "app", version := "1",
    dependencies := [library "plugin", library "driver", library "addon", library "frame"] }

def table : Resolver.Table where
  nodes :=
    [("org:plugin:1.0", some { unresolved := [library "gone"] }), ("org:addon:1.0", some { unresolved := [library "gone"] }),
      ("org:frame:1.0", none)]
  versions := [("org:driver", [⟨"2.0"⟩])]

/-- The graph of the project, with a node for each of its dependencies. -/
def graph : Resolver.Answer :=
  { nodes := project.dependencies.map fun d => { artifact := d.artifact, dependency := some d }, root := [0, 1, 2, 3] }

def everything : Filter :=
  .scopes Scope.all

def setting : Setting Unit :=
  { resolver := .ofTable table, configuration := {}, project, reactor := [],
    root := (graph.outcome project.artifact).graph.flatten everything.admits }

def ledger : Ledger (Bench Unit) :=
  ⟨⟨(), { fallback := .default, rules := [] }⟩, []⟩

/-- The tasks in the other order. -/
def order : List (Option Dependency × Nat) :=
  setting.scanned.zipIdx.reverse

/-- What a run says that gives no map. -/
def said? {α : Type} : Except Failure α → Option (List String × List String)
  | .error (.incomplete messages dependencies) => some (messages, dependencies)
  | _ => none

/-- A failure of which messages and dependencies are told is an incomplete resolution. -/
theorem eq_of_said? {α : Type} {x : Except Failure α} {messages dependencies : List String}
    (h : said? x = some (messages, dependencies)) : x = .error (.incomplete messages dependencies) := by
  unfold said? at h
  split at h
  · cases h
    rfl
  · cases h

/-- The node of the frame. -/
def frame : Node :=
  { artifact := (library "frame").artifact, dependency := some (library "frame") }

/-- The driver is told of, and what two others lack is named once. The frame keeps what the project asks of it. -/
theorem resolutionMapIn_all_or_nothing_troubled : ∃ message ends direct,
    ((setting.resolutionMapIn everything order).run ledger).1 = .error (.incomplete [message] ["org:gone:1.0 [compile]"]) ∧
    setting.EndAs everything order ledger ends ∧ (toldBy (failures ends)).eraseDups = [message] ∧
    (lackedBy (failures ends)).eraseDups = ["org:gone:1.0 [compile]"] ∧ setting.resolver.NamesUnresolved ∧
    ends[3]? = some (some (library "frame"), .ok direct) ∧ direct.length = 1 := by
  have hsaid : (said? ((setting.resolutionMapIn everything order).run ledger).1).map (fun y => (y.1.length, y.2)) =
      some (1, ["org:gone:1.0 [compile]"]) := by
    decide +kernel
  have hone : ((setting.directPart everything (library "frame")).run ledger).1.toOption.map (·.length) = some 1 := by
    decide +kernel
  obtain ⟨⟨messages, dependencies⟩, hfailure, hlengths⟩ := Option.map_eq_some_iff.1 hsaid
  obtain ⟨hmessage, rfl⟩ := Prod.mk.inj hlengths
  obtain ⟨message, rfl⟩ := List.length_eq_one_iff.1 hmessage
  obtain ⟨direct, hdirect, hlength⟩ := Option.map_eq_some_iff.1 hone
  -- the task of the frame is run first and comes to its own graph
  have hstart : ((some (library "frame"), 3), ledger) ∈ setting.startsIn everything order ledger :=
    List.mem_cons_self ..
  have hreaches : setting.ReachesOwnGraph everything (library "frame") ledger direct frame
      (.scopes ["compile", "provided", "system"]) := by
    have hgives : ((setting.directPart everything (library "frame")).run ledger).1 = .ok direct :=
      Except.of_toOption hdirect
    exact ⟨hgives, rfl, rfl, by decide, rfl⟩
  have hrun := eq_of_said? hfailure
  obtain ⟨-, ends, hends, -, htells, -, hkeeps⟩ :=
    Setting.resolutionMapIn_all_or_nothing setting everything (List.reverse_perm _) ledger hrun
  obtain ⟨htold, hlacked⟩ := Failure.incomplete.inj (htells _ rfl)
  obtain ⟨hframe, -⟩ := hkeeps _ 3 ledger direct frame _ _ hstart hreaches rfl rfl
  exact ⟨message, ends, direct, hrun, hends, htold.symm, hlacked.symm, Resolver.namesUnresolved_ofTable table, hframe,
    hlength⟩

end Troubled

end VersionAudit
