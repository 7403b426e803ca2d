import VersionAudit.Proofs.Analysis.TwoRuns

/-!
# Adding waivers

An analysis with more waivers is the same analysis, less the conflicts that they cover. Nothing else changes: neither
which requests there are, nor how they are grouped and ordered, nor what the run leaves behind.

1. `related_analyze`: both runs, whether or not they give an analysis.
2. `conflict_iff_of_more_waivers`: the two analyses held side by side.
-/

namespace VersionAudit

open Step (Related Alike)

variable {σ : Type}

/-- From one and the same ledger every resolver answers in the same way. -/
theorem Resolver.repeats_eq (r : Resolver σ) : r.Repeats Eq where
  node _ _ _ := .refl _
  versions _ := .refl _
  warn _ := .refl _
  project _ _ _ := .refl _
  note _ _ _ := .refl _

/-- Waivers that are complete are no fault. -/
theorem Configuration.fault?_waiving (c : Configuration) {more : List Waiver}
    (hmore : ∀ w ∈ more, w.isComplete = true) : (c.waiving more).fault? = c.fault? := by
  have hnone : more.find? (fun w => !w.isComplete) = none := by
    rw [List.find?_eq_none]
    intro w hw
    simp [hmore w hw]
  have hfind : (c.waivers ++ more).find? (fun w => !w.isComplete) = c.waivers.find? fun w => !w.isComplete := by
    rw [List.find?_append, hnone, Option.or_none]
  unfold fault? waiving
  dsimp only
  rw [hfind]

/-- The second analysis is of the same graph, and its requests are those of the first with their verdicts
silenced. -/
structure Analysis.Silenced (resolver : Resolver σ) (c : Configuration) (reactor : List Project)
    (more : List Waiver) (a a' : Analysis) : Prop where
  project : a'.project = a.project
  root : a'.root = a.root
  requests : a'.requests = a.requests.rejudge ((a.setting resolver c reactor).silencing more)

/-- With more waivers the analysis of a project ends alike, from all ledgers that the resolver does not tell apart. -/
theorem related_analyze_of {P : Ledger σ → Ledger σ → Prop} {resolver : Resolver σ} (hs : resolver.Repeats P)
    (registry : Registry) (c : Configuration) (reactor : List Project) (project : Project) {more : List Waiver}
    (hmore : ∀ w ∈ more, w.isComplete = true) :
    Related P (analyze resolver registry c reactor project) (analyze resolver registry (c.waiving more) reactor project)
      (Option.Rel (Analysis.Silenced resolver c reactor more)) := by
  have hprogress : ∀ text, Related P (progress c text) (progress (c.waiving more) text) Eq := by
    intro text
    have hquiet : (c.waiving more).quiet = c.quiet := rfl
    unfold progress
    rw [hquiet]
    split
    · exact .pure rfl
    · exact hs.note _ _ _
  unfold analyze
  rw [c.fault?_waiving hmore]
  cases c.fault? with
  | some fault => exact .fail
  | none =>
    dsimp only
    by_cases hskip : c.skip = true
    · rw [if_pos hskip, if_pos (show (c.waiving more).skip = true from hskip)]
      refine .bind (hprogress _) fun _ _ _ => .pure .none
    · rw [if_neg hskip, if_neg (show ¬ (c.waiving more).skip = true from hskip)]
      have hpom : (c.waiving more).includePomProjects = c.includePomProjects := rfl
      rw [hpom]
      split
      · exact .bind (hprogress _) fun _ _ _ => .pure .none
      · refine .bind (Related.and_known (Q := fun fresh => Assignment.Remembers fresh fresh)
          (.ofExcept (Step.alike_self _)) ?_) ?_
        · intro l fresh l' h
          rw [Step.run_ofExcept, Prod.mk.injEq] at h
          exact Assignment.remembers_make (Except.of_mapError_ok h.1)
        rintro fresh _ ⟨rfl, hfresh⟩
        refine .bind (.ofExcept (Step.alike_self _)) ?_
        rintro visible _ rfl
        refine .bind ((hs.project _ _ _).and_known fun l root l' h => Resolver.coherent_of_run_mapProject h) ?_
        rintro root _ ⟨rfl, hroot⟩
        refine .bind .get ?_
        intro ledger ledger' hledgers
        -- the tasks of both runs start on linked benches
        let setting : Setting σ := { resolver, configuration := c, project, reactor, root }
        have htasks : Related (Setting.Linked P fresh) (setting.resolutionMap visible)
            ((setting.waiving more).resolutionMap visible) fun m m' => m.rejudge (setting.silencing more) = m' :=
          Setting.related_resolutionMap hs.toBlind hroot visible
        obtain ⟨hlinked, halike⟩ :=
          htasks (ledger.bench fresh) (ledger'.bench fresh) ⟨hledgers, hfresh, .start, .start⟩
        refine .bind (.set hlinked.source) ?_
        rintro _ _ rfl
        refine .bind (.ofExcept halike) fun m m' hm => ?_
        exact .pure (.some ⟨rfl, rfl, hm.symm⟩)

/-- On one and the same ledger both analyses leave the same. -/
theorem related_analyze (resolver : Resolver σ) (registry : Registry) (c : Configuration) (reactor : List Project)
    (project : Project) {more : List Waiver} (hmore : ∀ w ∈ more, w.isComplete = true) :
    Related Eq (analyze resolver registry c reactor project) (analyze resolver registry (c.waiving more) reactor project)
      (Option.Rel (Analysis.Silenced resolver c reactor more)) :=
  related_analyze_of resolver.repeats_eq registry c reactor project hmore

/-- Silencing nothing changes no verdict. -/
theorem Setting.rejudge_silencing_nil (s : Setting σ) (m : ResolutionMap) : m.rejudge (s.silencing []) = m := by
  have hverdict : ∀ name expected, (s.silencing []).verdict name expected = id := by
    intro name expected
    funext conflict
    show (conflict && !s.isSilenced [] name expected) = conflict
    rw [isSilenced_nil, Bool.not_false, Bool.and_true]
  have hgroup : ∀ g : RequestGroup, g.rejudge id = g := by
    intro g
    unfold RequestGroup.rejudge
    rw [show Request.rejudge id = id from rfl, List.map_id]
  unfold ResolutionMap.rejudge
  simp only [hverdict, hgroup, List.map_id']

/-- From all ledgers that the resolver does not tell apart the analysis of a project finds the same. -/
theorem related_analyze_self {P : Ledger σ → Ledger σ → Prop} {resolver : Resolver σ} (hs : resolver.Repeats P)
    (registry : Registry) (c : Configuration) (reactor : List Project) (project : Project) :
    Related P (analyze resolver registry c reactor project) (analyze resolver registry c reactor project)
      (Option.Rel fun a a' => a'.project = a.project ∧ a'.root = a.root ∧ a'.requests = a.requests) := by
  have hnone : ∀ w ∈ ([] : List Waiver), w.isComplete = true := by
    simp
  have hanalyze := related_analyze_of hs registry c reactor project hnone
  have hnothing : c.waiving [] = c := by
    unfold Configuration.waiving
    rw [List.append_nil]
  rw [hnothing] at hanalyze
  refine hanalyze.mono fun a? a'? h => ?_
  cases h with
  | none => exact .none
  | some h => exact .some ⟨h.project, h.root, by rw [h.requests, Setting.rejudge_silencing_nil]⟩

/-- Every artifact of an analysis has a node in the project's graph. -/
theorem exists_node_of_mem {resolver : Resolver σ} {registry : Registry} {c : Configuration}
    {reactor : List Project} {project : Project} {l l' : Ledger σ} {a : Analysis}
    (hrun : (analyze resolver registry c reactor project).run l = (.ok (some a), l')) {n : Identity}
    {groups : List RequestGroup} (hn : (n, groups) ∈ a.requests.entries) :
    ∃ node, a.root.all.find? n = some node ∧ (node.identity == n) = true := by
  rcases analyze_ok hrun with ⟨-, assignment, _, _, _, hmake, -, hroot, -, -⟩
  rcases truthful_of_analyze hrun hmake with ⟨-, entries, hentries, htruthful⟩
  rw [hentries] at hn
  -- the artifact stands there for some request, which knows the node
  rcases List.exists_mem_of_ne_nil _ (ResolutionMap.groups_ne_nil hn) with ⟨g, hg⟩
  rcases List.exists_mem_of_ne_nil _ (ResolutionMap.requests_ne_nil hn hg) with ⟨r, hr⟩
  rcases ResolutionMap.exists_entry_of_mem hn hg hr with ⟨e, he, hen, -, -⟩
  rcases htruthful e he with ⟨node, hnode, -, -⟩
  have hfound : a.root.all.find? n = some node := by
    rw [← OrderedMap.find?_congr _ hen]
    exact hnode
  exact ⟨node, hfound, (Resolver.coherent_of_run_mapProject hroot).identity _ _ hfound⟩

/-- More waivers only silence conflicts. A project that has an analysis has one with more waivers too, on the same
ledger and with the same artifacts, versions and requests in the same order. A request for a version of an artifact
is in conflict in the second analysis just if it is in the first and no further waiver covers the artifact with the
expected version, however that is written, and the version that the project's graph has for it. -/
theorem conflict_iff_of_more_waivers {resolver : Resolver σ} {registry : Registry} {c : Configuration}
    {reactor : List Project} {project : Project} {l l' : Ledger σ} {a : Analysis}
    (hrun : (analyze resolver registry c reactor project).run l = (.ok (some a), l')) {more : List Waiver}
    (hmore : ∀ w ∈ more, w.isComplete = true) :
    ∃ a', (analyze resolver registry (c.waiving more) reactor project).run l = (.ok (some a'), l') ∧
      a'.project = a.project ∧ a'.root = a.root ∧
      List.Forall₂
        (fun e e' => e'.1 = e.1 ∧ ∃ node, a.root.all.find? e.1 = some node ∧ (node.identity == e.1) = true ∧
          List.Forall₂
            (fun g g' => g'.expected = g.expected ∧
              List.Forall₂
                (fun r r' => r'.requester = r.requester ∧ r'.managed = r.managed ∧ r'.direct = r.direct ∧
                  ∀ v, (v == g.expected) = true → (r'.conflict = true ↔ r.conflict = true ∧
                    ∀ w ∈ more, w.covers node v ⟨node.artifact.version⟩ = false))
                g.requests g'.requests)
            e.2 e'.2)
        a.requests.entries a'.requests.entries := by
  obtain ⟨hledger, halike⟩ := related_analyze resolver registry c reactor project hmore l l rfl
  rw [hrun] at hledger halike
  rcases hsecond : (analyze resolver registry (c.waiving more) reactor project).run l with ⟨r, l₂⟩
  rw [hsecond] at hledger halike
  cases halike with
  | ok hrel =>
    cases hrel with
    | some hsilenced =>
      rename_i a'
      refine ⟨a', Prod.ext rfl hledger.symm, hsilenced.project, hsilenced.root, ?_⟩
      rw [hsilenced.requests]
      -- artifact by artifact, group by group, request by request
      unfold ResolutionMap.rejudge
      rw [List.forall₂_map_right_iff, List.forall₂_same]
      rintro ⟨n, groups⟩ hn
      rcases exists_node_of_mem hrun hn with ⟨node, hnode, hidentity⟩
      refine ⟨rfl, node, hnode, hidentity, ?_⟩
      rw [List.forall₂_map_right_iff, List.forall₂_same]
      intro g _
      refine ⟨rfl, ?_⟩
      unfold RequestGroup.rejudge
      rw [List.forall₂_map_right_iff, List.forall₂_same]
      intro r _
      refine ⟨rfl, rfl, rfl, fun v hv => ?_⟩
      -- the waivers are asked about the node of the artifact, as in the analysis
      have hspared : (a.setting resolver c reactor).isSilenced more n g.expected = false ↔
          ∀ w ∈ more, w.covers node v ⟨node.artifact.version⟩ = false := by
        rw [← Setting.isSilenced_congr _ more BEq.rfl hv]
        unfold Setting.isSilenced Analysis.setting
        simp only [hnode, List.any_eq_false, Bool.not_eq_true]
      rw [← hspared]
      show (r.conflict && !Setting.isSilenced _ more n g.expected) = true ↔ _
      rw [Bool.and_eq_true, Bool.not_eq_true']

/-- The waiver for the utility that the library was built with takes the conflict of the sample away. -/
theorem conflict_iff_of_more_waivers_utility : ∃ w a l', Waiver.read (some "org:utility") (some "2.0") (some "1.0") = .ok w ∧
    Sample.audit = (.ok (some a), l') ∧
    ∃ a', (analyze (.ofTable Sample.table) (.ofList []) (Sample.configuration.waiving [w]) [] Sample.project).run ⟨(), []⟩ =
      (.ok (some a'), l') ∧ a'.project = a.project ∧ a'.root = a.root ∧
      List.Forall₂
        (fun e e' => e'.1 = e.1 ∧ ∃ node, a.root.all.find? e.1 = some node ∧ (node.identity == e.1) = true ∧
          List.Forall₂
            (fun g g' => g'.expected = g.expected ∧
              List.Forall₂
                (fun r r' => r'.requester = r.requester ∧ r'.managed = r.managed ∧ r'.direct = r.direct ∧
                  ∀ v, (v == g.expected) = true → (r'.conflict = true ↔ r.conflict = true ∧
                    ∀ w' ∈ [w], w'.covers node v ⟨node.artifact.version⟩ = false))
                g.requests g'.requests)
            e.2 e'.2)
        a.requests.entries a'.requests.entries := by
  obtain ⟨a, l', hrun, -⟩ := Sample.exists_of_lists Sample.lists_utility
  refine ⟨_, a, l', rfl, hrun, conflict_iff_of_more_waivers hrun ?_⟩
  decide +kernel

end VersionAudit
