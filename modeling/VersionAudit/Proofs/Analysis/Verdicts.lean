import VersionAudit.Proofs.Analysis.Run
import VersionAudit.Proofs.Resolution.Gathering
import VersionAudit.Proofs.Strategy.Assignment

/-!
# Verdicts on requests

A request carries its verdict: whether the version it expects is in conflict with the resolved one. The map of
requests drops repeated requests and tells them apart without their verdicts, so it matters that requests for
the same version of the same artifact never differ in them.

1. `Setting.verdict`: what the verdict on a version of a node has to be.
2. `Setting.Truthful`: a request carries that verdict, and the flag of management of the node in the graph of
   the project. Every task gives truthful requests only (`ensures_task`), whatever strategies were remembered
   before it.
3. The groups of an analysis show that verdict.
-/

namespace VersionAudit

variable {σ : Type}

/-- Equal identities and equal versions are waived alike. -/
theorem Waiver.covers_congr (w : Waiver) {m n : Node} {e e' r r' : Version} (hn : (m.identity == n.identity) = true)
    (he : (e == e') = true) (hr : (r == r') = true) : w.covers m e r = w.covers n e' r' := by
  have hfits : ∀ given : Option Version, ∀ v v' : Version, (v == v') = true → fits given v = fits given v' := by
    intro given v v' hv
    unfold fits
    cases given with
    | none => rfl
    | some g => exact BEq.congr_right hv
  unfold covers
  rw [Pattern.selects_congr _ hn, hfits _ _ _ he, hfits _ _ _ hr]

namespace Setting

variable {s : Setting σ} {fresh : Assignment}

/-- Whether a request is waived depends on the artifact and the versions up to equality. -/
theorem isWaived_congr (c : Configuration) {m n : Node} {e e' r r' : Version}
    (hn : (m.identity == n.identity) = true) (he : (e == e') = true) (hr : (r == r') = true) :
    isWaived c m e r = isWaived c n e' r' := by
  unfold isWaived
  congr 1
  funext w
  exact w.covers_congr hn he hr

/-! ## What a request has to say -/

/-- Whether a node of the project's graph is in conflict with a version expected of its artifact. -/
def verdict (s : Setting σ) (fresh : Assignment) (n : Node) (name : Identity) (expected : Version) : Bool :=
  !isWaived s.configuration n expected ⟨n.artifact.version⟩ &&
    !(fresh.lookup name).isCompatible expected ⟨n.artifact.version⟩

/-- The verdict depends on the identity and on the canonical form of the version only. -/
theorem verdict_congr (hcanonical : fresh.ReadsCanonical) {n : Node} {k k' : Identity} {v v' : Version}
    (hk : (k == k') = true) (hv : (v == v') = true) : s.verdict fresh n k v = s.verdict fresh n k' v' := by
  unfold verdict
  rw [isWaived_congr _ BEq.rfl hv BEq.rfl, fresh.lookup_congr hk, hcanonical k' hv BEq.rfl]

/-- A request for an artifact of the project's graph, with the verdict and the flag of management that the node
there gives. -/
def Truthful (s : Setting σ) (fresh : Assignment) (e : Identity × VersionRequest) : Prop :=
  ∃ n, s.root.all.find? e.1 = some n ∧ e.2.request.managed = n.isVersionManaged ∧
    e.2.request.conflict = s.verdict fresh n e.1 e.2.expected

/-- Whatever the tasks have looked up, the rules would answer it in the same way. -/
abbrev Remembering (fresh : Assignment) (b : Bench σ) : Prop :=
  Assignment.Remembers fresh b.assignment

/-! ## The steps of a task -/

/-- What is done on the source leaves the strategies alone. -/
theorem ensures_onSource {α : Type} {step : Step σ α} {Q : α → Prop}
    (h : ∀ l a l', step.run l = (.ok a, l') → Q a) : Step.Ensures (Remembering fresh) (onSource step) Q := by
  intro l hl
  unfold onSource
  rw [Step.run_within]
  exact ⟨hl, fun a ha => h _ a _ (Prod.ext ha rfl)⟩

/-- The strategy for an artifact is the one that a fresh registry would find. -/
theorem ensures_strategyFor (n : Identity) :
    Step.Ensures (σ := Bench σ) (Remembering fresh) (strategyFor n) (· = fresh.lookup n) := by
  intro l hl
  refine ⟨Assignment.remembers_strategy hl n, ?_⟩
  intro strategy hstrategy
  obtain rfl := Except.ok.inj hstrategy
  exact Assignment.strategy_eq_lookup hl n

/-- A request is in conflict if it is not waived and its strategy rejects it. -/
theorem ensures_inConflict (n : Node) (name : Identity) (expected resolved : Version) :
    Step.Ensures (Remembering fresh) (s.inConflict n name expected resolved) (· =
      (!isWaived s.configuration n expected resolved && !(fresh.lookup name).isCompatible expected resolved)) := by
  unfold inConflict
  split
  · rename_i hwaived
    exact .pure (by simp [hwaived])
  · rename_i hwaived
    refine .bind (ensures_strategyFor name) fun strategy hstrategy => ?_
    subst hstrategy
    exact .pure (by simp [hwaived])

/-- The direct request tells the truth about a node of its own name. -/
theorem ensures_directRequest (hroot : s.root.Coherent) {d : Dependency} {n : Node}
    (hn : s.root.direct.find? (.ofArtifact d.artifact) = some n) :
    Step.Ensures (Remembering fresh) (s.directRequest d n) (s.Truthful fresh) := by
  unfold directRequest
  refine .bind (ensures_onSource (Q := fun _ => True) fun _ _ _ _ => trivial) fun versions _ => ?_
  dsimp only
  split
  · exact .fail
  · refine .bind (ensures_inConflict n _ _ _) fun conflict hconflict => ?_
    exact .pure ⟨n, hroot.direct _ _ hn, rfl, hconflict⟩

/-- A transitive request is judged by a node of the dependency's graph, but all that is read off it is its
identity and its version. -/
theorem ensures_transitiveRequest (hroot : s.root.Coherent) (requester : Identity) (n : Node) :
    Step.Ensures (Remembering fresh) (s.transitiveRequest requester n)
      fun o => ∀ e, o = some e → s.Truthful fresh e := by
  unfold transitiveRequest
  dsimp only
  split
  · exact .pure (by simp)
  · rename_i selected hselected
    refine .bind (ensures_inConflict n _ _ _) fun conflict hconflict => ?_
    refine .pure ?_
    rintro e he
    obtain rfl := Option.some.inj he
    refine ⟨selected, hselected, rfl, ?_⟩
    -- waivers see no difference between the two nodes
    have hid : (n.identity == selected.identity) = true := BEq.symm (hroot.identity _ _ hselected)
    unfold verdict
    rw [← isWaived_congr _ hid BEq.rfl BEq.rfl]
    exact hconflict

theorem ensures_transitivePart (hroot : s.root.Coherent) (d : Dependency) (n : Node) :
    Step.Ensures (Remembering fresh) (s.transitivePart d n) fun es => ∀ e ∈ es, s.Truthful fresh e :=
  ensures_transitivePart_of (fun _ => ensures_onSource fun _ _ _ _ => trivial)
    (fun requester n => ensures_transitiveRequest hroot requester n) d n

/-- A dependency contributes truthful requests only. -/
theorem ensures_contribution (hroot : s.root.Coherent) (visible : Filter) (d : Dependency) :
    Step.Ensures (Remembering fresh) (s.contribution visible d) fun es => ∀ e ∈ es, s.Truthful fresh e := by
  have hvisible : ∀ n, Step.Ensures (Remembering fresh) (checkVisible (σ := σ) visible d n) fun _ => True := by
    intro n
    unfold checkVisible
    split
    · exact .pure trivial
    · exact .fail
  have hdirect : Step.Ensures (Remembering fresh) (s.directPart visible d) fun es => ∀ e ∈ es, s.Truthful fresh e := by
    unfold directPart
    split
    · exact .pure (by simp)
    · rename_i n hn
      refine .bind (hvisible n) fun _ _ => ?_
      refine .bind (ensures_directRequest hroot hn) fun e he => ?_
      exact .pure (by simpa using he)
  unfold contribution
  -- the direct part, and then the transitive one if the node passes its dependencies on
  refine .bind hdirect fun direct hdirect => ?_
  split
  · exact .pure hdirect
  · rename_i n _
    refine .bind (hvisible n) fun _ _ => ?_
    split
    · exact .pure hdirect
    · refine .bind (ensures_transitivePart hroot d n) fun transitive htransitive => ?_
      refine .pure fun e he => ?_
      rcases List.mem_append.1 he with he | he
      · exact hdirect e he
      · exact htransitive e he

/-- A task gives truthful requests only. -/
theorem ensures_task (hroot : s.root.Coherent) (visible : Filter) (d : Option Dependency) :
    Step.Ensures (Remembering fresh) (s.task visible d) fun es => ∀ e ∈ es, s.Truthful fresh e := by
  cases d with
  | none => exact .fail
  | some d => exact ensures_contribution hroot visible d

/-- So do all tasks of a project, run one after the other. -/
theorem ensures_attempts (hroot : s.root.Coherent) (visible : Filter) :
    Step.Ensures (Remembering fresh) (s.scanned.mapM (s.attempt visible))
      fun ends => ∀ e ∈ ends.flatMap (·.requests), s.Truthful fresh e := by
  have hattempt : ∀ d, Step.Ensures (Remembering fresh) (s.attempt visible d)
      fun e => ∀ q ∈ e.requests, s.Truthful fresh q := by
    intro d
    refine .bind (.outcome (ensures_task hroot visible d)) fun r hr => ?_
    refine .pure fun q hq => ?_
    cases r with
    | ok requests => exact hr requests rfl q hq
    | error failure => simp [TaskEnd.requests] at hq
  refine .mono (.mapM fun d _ => hattempt d) fun ends hends e he => ?_
  rcases List.mem_flatMap.1 he with ⟨task, htask, he⟩
  exact hends task htask e he

end Setting

/-! ## The verdicts of an analysis -/

/-- The requests of an analysis are truthful towards the assignment that its configuration makes. -/
theorem truthful_of_analyze {resolver : Resolver σ} {registry : Registry} {c : Configuration}
    {reactor : List Project} {project : Project} {l l' : Ledger σ} {a : Analysis} {assignment : Assignment}
    (hrun : (analyze resolver registry c reactor project).run l = (.ok (some a), l'))
    (hmake : Assignment.make registry c.rules c.defaultStrategy = .ok assignment) :
    Assignment.Remembers assignment a.assignment ∧ ∃ entries, a.requests = .ofList entries ∧
      ∀ e ∈ entries, (a.setting resolver c reactor).Truthful assignment e := by
  rcases analyze_ok hrun with ⟨-, made, visible, m, finish, hmade, -, hroot, htasks, hassignment⟩
  obtain rfl : made = assignment := Except.ok.inj (hmade.symm.trans hmake)
  rcases Setting.resolutionMap_ok htasks with ⟨ends, hruns, -, hrequests⟩
  have hcoherent : (a.setting resolver c reactor).root.Coherent := Resolver.coherent_of_run_mapProject hroot
  have hrunall := Step.run_mapM_ok_iff.2 hruns
  obtain ⟨hremembers, htruthful⟩ := Setting.ensures_attempts hcoherent visible (m.bench made)
    (Assignment.remembers_make hmade)
  rw [hrunall] at hremembers htruthful
  rw [hassignment]
  exact ⟨hremembers, ends.flatMap (·.requests), hrequests, htruthful ends rfl⟩

/-- The verdict on every group of an analysis is exact. A group is in conflict just if the strategy of its
artifact rejects the version that the project's graph has for it and no waiver covers the combination, and all
its requests carry the flag of management of the node in that graph. -/
theorem conflict_iff_rejected {resolver : Resolver σ} {registry : Registry} {c : Configuration}
    {reactor : List Project} {project : Project} {l l' : Ledger σ} {a : Analysis} {assignment : Assignment}
    (hrun : (analyze resolver registry c reactor project).run l = (.ok (some a), l'))
    (hmake : Assignment.make registry c.rules c.defaultStrategy = .ok assignment)
    (hcanonical : assignment.ReadsCanonical) {n : Identity} {groups : List RequestGroup}
    (hn : (n, groups) ∈ a.requests.entries) :
    (a.assignment.strategy n).1 = (assignment.strategy n).1 ∧ ∃ node, a.root.all.find? n = some node ∧
      ∀ g ∈ groups,
        (g.hasConflict = true ↔
          (assignment.strategy n).1.isCompatible g.expected ⟨node.artifact.version⟩ = false ∧
            ∀ w ∈ c.waivers, w.covers node g.expected ⟨node.artifact.version⟩ = false) ∧
        ∀ r ∈ g.requests, r.managed = node.isVersionManaged := by
  rcases truthful_of_analyze hrun hmake with ⟨hremembers, entries, hentries, htruthful⟩
  rw [Assignment.strategy_eq_lookup hremembers,
    Assignment.strategy_eq_lookup (Assignment.remembers_make hmake)]
  refine ⟨rfl, ?_⟩
  rw [hentries] at hn
  -- what a request of the artifact says, read at the artifact's key and the group's version
  have hsays : ∀ g ∈ groups, ∀ r ∈ g.requests, ∃ node, a.root.all.find? n = some node ∧
      r.managed = node.isVersionManaged ∧
      r.conflict = (a.setting resolver c reactor).verdict assignment node n g.expected := by
    intro g hg r hr
    rcases ResolutionMap.exists_entry_of_mem hn hg hr with ⟨e, he, hen, hev, rfl⟩
    rcases htruthful e he with ⟨node, hnode, hmanaged, hconflict⟩
    refine ⟨node, ?_, hmanaged, ?_⟩
    · rw [← OrderedMap.find?_congr _ hen]
      exact hnode
    · rw [hconflict]
      exact Setting.verdict_congr hcanonical hen hev
  -- there is some request, and it knows the node
  rcases List.exists_mem_of_ne_nil _ (ResolutionMap.groups_ne_nil hn) with ⟨g₀, hg₀⟩
  rcases List.exists_mem_of_ne_nil _ (ResolutionMap.requests_ne_nil hn hg₀) with ⟨r₀, hr₀⟩
  rcases hsays g₀ hg₀ r₀ hr₀ with ⟨node, hnode, -, -⟩
  refine ⟨node, hnode, ?_⟩
  intro g hg
  have hall : ∀ r ∈ g.requests, r.managed = node.isVersionManaged ∧
      r.conflict = (a.setting resolver c reactor).verdict assignment node n g.expected := by
    intro r hr
    rcases hsays g hg r hr with ⟨node', hnode', hmanaged, hconflict⟩
    obtain rfl := Option.some.inj (hnode'.symm.trans hnode)
    exact ⟨hmanaged, hconflict⟩
  refine ⟨?_, fun r hr => (hall r hr).1⟩
  have hverdict : g.hasConflict = (a.setting resolver c reactor).verdict assignment node n g.expected := by
    -- the requests of the group agree, and there is one
    rcases List.exists_mem_of_ne_nil _ (ResolutionMap.requests_ne_nil hn hg) with ⟨r, hr⟩
    rw [Bool.eq_iff_iff]
    unfold RequestGroup.hasConflict
    rw [List.any_eq_true]
    constructor
    · rintro ⟨r', hr', hconflict⟩
      rwa [← (hall r' hr').2]
    · intro hconflict
      exact ⟨r, hr, (hall r hr).2.trans hconflict⟩
  rw [hverdict]
  simp only [Setting.verdict, Setting.isWaived, Analysis.setting, Bool.and_eq_true, Bool.not_eq_true',
    List.any_eq_false, Bool.not_eq_true]
  exact and_comm

/-- The verdict on the utility, which the project does not declare. -/
theorem conflict_iff_rejected_utility : ∃ a l', Sample.audit = (.ok (some a), l') ∧
    ∃ groups, (Identity.ofArtifact (Sample.utility "1.0"), groups) ∈ a.requests.entries ∧
      ∃ node, a.root.all.find? (Identity.ofArtifact (Sample.utility "1.0")) = some node ∧ ∀ g ∈ groups,
        (g.hasConflict = true ↔ Strategy.apr.isCompatible g.expected ⟨node.artifact.version⟩ = false ∧
          ∀ w ∈ Sample.configuration.waivers, w.covers node g.expected ⟨node.artifact.version⟩ = false) ∧
        ∀ r ∈ g.requests, r.managed = node.isVersionManaged := by
  obtain ⟨a, l', hrun, groups, hmem⟩ :=
    Sample.exists_of_lists (n := .ofArtifact (Sample.utility "1.0")) (by decide +kernel)
  have hmake : Assignment.make (.ofList []) Sample.configuration.rules Sample.configuration.defaultStrategy =
      .ok { fallback := .apr, rules := [] } := rfl
  rcases conflict_iff_rejected hrun hmake (fun _ => Strategy.readsCanonical_apr) hmem with ⟨-, hexact⟩
  exact ⟨a, l', hrun, groups, hmem, hexact⟩

end VersionAudit
