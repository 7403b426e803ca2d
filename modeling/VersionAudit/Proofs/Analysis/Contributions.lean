import VersionAudit.Proofs.Analysis.Run
import VersionAudit.Proofs.Resolution.Gathering

/-!
# Which requests an analysis holds

Apart from verdicts and flags, a request says who requests which version of what. Such a `Triple` is in the map
of an analysis just if a scanned dependency gives it, directly or by its own dependencies.

1. `holds_ofList_iff`: gathering loses no triple and makes none up.
2. `contribution_ok`: what a task gives, read off the nodes of the project's graph (`GivesDirectly`) and of the
   dependency's own graph (`GivesTransitively`).
3. The triples of an analysis.
-/

namespace VersionAudit

variable {σ : Type}

/-! ## Computations over a list -/

/-- What is kept is what the computation gives for some element, and a failure is that of some element. -/
theorem filterMapM_except {ε α β : Type} (f : α → Except ε (Option β)) (xs : List α) :
    (∀ ys, xs.filterMapM f = .ok ys → ∀ y, y ∈ ys ↔ ∃ x ∈ xs, f x = .ok (some y)) ∧
      ∀ e, xs.filterMapM f = .error e → ∃ x ∈ xs, f x = .error e := by
  induction xs with
  | nil =>
    constructor
    · intro ys h y
      obtain rfl := Except.ok.inj h
      simp
    · intro e h
      cases h
  | cons x xs ih =>
    cases hx : f x with
    | error e' =>
      have hcons : (x :: xs).filterMapM f = .error e' := by
        rw [List.filterMapM_cons, hx]
        rfl
      rw [hcons]
      constructor
      · intro ys h
        cases h
      · intro e h
        obtain rfl := Except.error.inj h
        exact ⟨x, List.mem_cons_self .., hx⟩
    | ok o =>
      -- what the first element gives stands before what the others give
      have hcons : (x :: xs).filterMapM f = (xs.filterMapM f).map (o.toList ++ ·) := by
        rw [List.filterMapM_cons, hx]
        cases o <;> cases xs.filterMapM f <;> rfl
      rw [hcons]
      cases hxs : xs.filterMapM f with
      | error e' =>
        constructor
        · intro ys h
          cases h
        · intro e h
          obtain rfl := Except.error.inj h
          rcases ih.2 _ hxs with ⟨x', hx', herr⟩
          exact ⟨x', List.mem_cons_of_mem _ hx', herr⟩
      | ok zs =>
        constructor
        · intro ys h y
          obtain rfl := Except.ok.inj h
          simp [ih.1 zs hxs, hx]
        · intro e h
          cases h

/-! ## Triples -/

/-- An artifact, the canonical form of a version expected of it, and the name of who expects it. -/
structure Triple where
  artifact : Identity
  expected : String
  requester : String

/-- Whether a request for a version of an artifact says what the triple says. -/
def Triple.Names (t : Triple) (e : Identity × VersionRequest) : Prop :=
  (e.1 == t.artifact) = true ∧ e.2.expected.canonical = t.expected ∧ e.2.request.name = t.requester

namespace ResolutionMap

/-- Whether a triple occurs in the map. -/
def Holds (m : ResolutionMap) (t : Triple) : Prop :=
  ∃ n groups g r, (n, groups) ∈ m.entries ∧ g ∈ groups ∧ r ∈ g.requests ∧ t.Names (n, ⟨g.expected, r⟩)

/-- No artifact stands in the map twice, no version under an artifact, and no name under a version. -/
structure Unrepeated (m : ResolutionMap) : Prop where
  artifacts : m.Distinct
  versions : ∀ n groups, (n, groups) ∈ m.entries → groups.Pairwise fun g h => (g.expected == h.expected) = false
  requesters : ∀ n groups g, (n, groups) ∈ m.entries → g ∈ groups → g.requests.Pairwise fun r s => r.name ≠ s.name

theorem unrepeated_ofList (entries : List (Identity × VersionRequest)) : (ofList entries).Unrepeated where
  artifacts := distinct_ofList entries
  versions := fun _ _ => pairwise_groups
  requesters := fun _ _ _ => pairwise_requests

/-- The triples in the map of a list are those that the list names. -/
theorem holds_ofList_iff {entries : List (Identity × VersionRequest)} {t : Triple} :
    (ofList entries).Holds t ↔ ∃ e ∈ entries, t.Names e := by
  constructor
  · rintro ⟨n, groups, g, r, hn, hg, hr, hart, hver, hreq⟩
    rcases exists_entry_of_mem hn hg hr with ⟨e, he, hen, hev, rfl⟩
    refine ⟨e, he, BEq.trans hen hart, ?_, hreq⟩
    rw [Version.beq_iff.1 hev]
    exact hver
  · rintro ⟨e, he, hart, hver, hreq⟩
    rcases exists_group he with ⟨n, groups, hn, hne, g, hg, hge⟩
    rcases exists_mem_of_entry hn hg he (BEq.symm hne) (BEq.symm hge) with ⟨r, hr, hname⟩
    refine ⟨n, groups, g, r, hn, hg, hr, BEq.trans hne hart, ?_, hname.trans hreq⟩
    rw [← hver]
    exact Version.beq_iff.1 hge

end ResolutionMap

namespace Setting

variable {s : Setting σ}

/-! ## What a dependency gives -/

/-- The dependency is direct, and the triple is that of the project for its node. -/
def GivesDirectly (s : Setting σ) (d : Dependency) (t : Triple) : Prop :=
  (Identity.ofArtifact d.artifact == t.artifact) = true ∧ ∃ n, s.root.direct.find? t.artifact = some n ∧
    Version.canonical ⟨n.artifact.version⟩ = t.expected ∧ (Identity.ofProject s.project).minimalName = t.requester

/-- The nodes of a node's own graph that a filter and the exclusions of a dependency leave, by identity. -/
def ownMap (s : Setting σ) (d : Dependency) (n : Node) (f : Filter) (l : Ledger (Bench σ)) :
    Except Failure DependencyMap :=
  ((onSource (s.resolver.mapNode (policy s.configuration s.reactor) n (.all [f, .excluding d.exclusions]))).run
    l).1

/-- The triple is that of the dependency for a node which it passes on, of an artifact that the project's graph
has too. -/
def PassesOn (s : Setting σ) (d : Dependency) (f : Filter) (map : DependencyMap) (t : Triple) : Prop :=
  ∃ m r, map.all.find? t.artifact = some m ∧ f.admits m = true ∧ m.dependency = some r ∧ r.isOptional = false ∧
    (s.root.all.find? t.artifact).isSome ∧ Version.canonical ⟨m.artifact.version⟩ = t.expected ∧
    (Identity.ofArtifact d.artifact).minimalName = t.requester

/-- The dependency is in the project's graph, does not come from the system, and its own graph, read from the
ledger that the direct part of its task leaves, passes the triple on. -/
def GivesTransitively (s : Setting σ) (visible : Filter) (d : Dependency) (k : Ledger (Bench σ)) (t : Triple) :
    Prop :=
  ∃ n f map, s.root.all.find? (.ofArtifact d.artifact) = some n ∧ d.scope ≠ "system" ∧
    Filter.passedOn d.scope = .ok f ∧ s.ownMap d n f ((s.directPart visible d).run k).2 = .ok map ∧
    s.PassesOn d f map t

theorem coherent_of_ownMap {d : Dependency} {n : Node} {f : Filter} {l : Ledger (Bench σ)} {map : DependencyMap}
    (h : s.ownMap d n f l = .ok map) : map.Coherent := by
  unfold ownMap onSource at h
  rw [Step.run_within] at h
  exact Resolver.coherent_of_run_mapNode (Prod.ext h rfl)

/-- Of the nodes that the filter admits, those are passed on whose dependency is not optional. -/
theorem mem_passedOn_iff {f : Filter} {nodes ms : List Node} (h : passedOn f nodes = .ok ms) (m : Node) :
    m ∈ ms ↔ m ∈ nodes ∧ f.admits m = true ∧ ∃ r, m.dependency = some r ∧ r.isOptional = false := by
  unfold passedOn at h
  rw [(filterMapM_except _ _).1 _ h]
  constructor
  · rintro ⟨n, hn, hgives⟩
    rw [List.mem_filter] at hn
    split at hgives
    · rename_i r hr
      rcases by simpa using hgives with ⟨hopt, rfl⟩
      exact ⟨hn.1, hn.2, r, hr, hopt⟩
    · cases hgives
  · rintro ⟨hm, hadm, r, hr, hopt⟩
    refine ⟨m, List.mem_filter.2 ⟨hm, hadm⟩, ?_⟩
    simp [hr, hopt]

/-- What is passed on fails only where a node was not requested. -/
theorem passedOn_error {f : Filter} {nodes : List Node} {e : Failure} (h : passedOn f nodes = .error e) :
    e = .unrequested "optional" := by
  unfold passedOn at h
  rcases (filterMapM_except _ _).2 _ h with ⟨n, -, hn⟩
  split at hn
  · cases hn
  · exact (Except.error.inj hn).symm

/-! ## What a task gives -/

/-- A verdict is always reached. -/
theorem exists_run_inConflict (s : Setting σ) (n : Node) (name : Identity) (expected resolved : Version)
    (l : Ledger (Bench σ)) : ∃ conflict l', (s.inConflict n name expected resolved).run l = (.ok conflict, l') := by
  unfold inConflict
  split
  · exact ⟨false, l, rfl⟩
  · exact ⟨_, _, rfl⟩

/-- A request for an artifact that the project's graph has as well, and nothing for another one. -/
theorem exists_run_transitiveRequest (s : Setting σ) (requester : Identity) (n : Node) (l : Ledger (Bench σ)) :
    ∃ o l', (s.transitiveRequest requester n).run l = (.ok o, l') ∧
      o.isSome = (s.root.all.find? n.identity).isSome ∧
      ∀ e, o = some e → e.1 = n.identity ∧ e.2.expected = ⟨n.artifact.version⟩ ∧ e.2.request.requester = requester := by
  unfold transitiveRequest
  dsimp only
  split
  · rename_i hnone
    exact ⟨none, l, rfl, by simp [hnone], by simp⟩
  · rename_i selected hselected
    obtain ⟨conflict, l', hrun⟩ :=
      s.exists_run_inConflict n n.identity ⟨n.artifact.version⟩ ⟨selected.artifact.version⟩ l
    -- the project's own node decides what is managed, and the verdict is about both versions
    let request : Request := { requester, managed := selected.isVersionManaged, conflict }
    refine ⟨some (n.identity, ⟨⟨n.artifact.version⟩, request⟩), l', ?_, ?_, ?_⟩
    · rw [Step.run_bind, hrun]
      exact Step.run_pure _ _
    · simp [hselected]
    · rintro e he
      obtain rfl := Option.some.inj he
      exact ⟨rfl, rfl, rfl⟩

/-- What is passed on is read off the dependency's own graph. -/
theorem transitiveRequests_ok {d : Dependency} {n : Node} {f : Filter} {l : Ledger (Bench σ)}
    {es : Contribution} (h : ((s.transitiveRequests d n f).run l).1 = .ok es) :
    ∃ map, s.ownMap d n f l = .ok map ∧ ∀ t : Triple, (∃ e ∈ es, t.Names e) ↔ s.PassesOn d f map t := by
  rcases Step.run_bind_ok_iff.1 (Prod.ext h rfl) with ⟨map, m, hmap, hrest⟩
  rcases Step.run_bind_ok_iff.1 hrest with ⟨nodes, m', hnodes, hrun⟩
  rw [Step.run_ofExcept, Prod.mk.injEq] at hnodes
  have hown : s.ownMap d n f l = .ok map := congrArg Prod.fst hmap
  -- no node makes the loop fail, so the run is that of all nodes passed on
  obtain ⟨ys, m'', hys, hsound, hcomplete⟩ :=
    Step.exists_run_filterMapM (s.exists_run_transitiveRequest (.ofArtifact d.artifact)) nodes m'
  obtain rfl : ys = es := by simpa using congrArg Prod.fst (hys.symm.trans hrun)
  have hmem := mem_passedOn_iff hnodes.1
  have hcoherent := coherent_of_ownMap hown
  refine ⟨map, hown, fun t => ?_⟩
  constructor
  · rintro ⟨e, he, hart, hver, hreq⟩
    rcases hsound e he with ⟨x, hx, hsome, hsays⟩
    rcases hsays e rfl with ⟨hid, hexpected, hrequester⟩
    rcases (hmem x).1 hx with ⟨hvalue, hadm, r, hr, hopt⟩
    rw [hid] at hart
    refine ⟨x, r, ?_, hadm, hr, hopt, ?_, ?_, ?_⟩
    · rw [← OrderedMap.find?_congr _ hart]
      exact hcoherent.mem_values_iff.1 hvalue
    · rw [← OrderedMap.find?_congr _ hart, ← hsome]
      rfl
    · rw [← hver, hexpected]
    · rw [← hreq, ← hrequester]
      rfl
  · rintro ⟨x, r, hx, hadm, hr, hopt, hroot, hver, hreq⟩
    have hart : (x.identity == t.artifact) = true := hcoherent.identity _ _ hx
    rw [← OrderedMap.find?_congr _ hart] at hx hroot
    rcases hcomplete x ((hmem x).2 ⟨hcoherent.mem_values_iff.2 hx, hadm, r, hr, hopt⟩) with hnone | ⟨e, he, -, hsays⟩
    · -- the project's graph has the artifact, so there is a request
      rw [← hnone.1] at hroot
      cases hroot
    · rcases hsays e rfl with ⟨hid, hexpected, hrequester⟩
      refine ⟨e, he, ?_, ?_, ?_⟩
      · rw [hid]
        exact hart
      · rw [hexpected]
        exact hver
      · show e.2.request.requester.minimalName = t.requester
        rw [hrequester]
        exact hreq

/-- Only the dependency's own graph can lack a model. -/
theorem transitiveRequests_unreadable {d : Dependency} {n : Node} {f : Filter} {l : Ledger (Bench σ)}
    {e : Failure} (he : e.isUnreadableModel = true) (h : ((s.transitiveRequests d n f).run l).1 = .error e) :
    s.ownMap d n f l = .error e := by
  rcases Step.run_bind_error_iff.1 (Prod.ext h rfl) with hmap | ⟨map, m, -, hrest⟩
  · exact congrArg Prod.fst hmap
  · rcases Step.run_bind_error_iff.1 hrest with hnodes | ⟨nodes, m', -, hrun⟩
    · rw [Step.run_ofExcept, Prod.mk.injEq] at hnodes
      rw [passedOn_error hnodes.1] at he
      cases he
    · obtain ⟨ys, m'', hys, -, -⟩ :=
        Step.exists_run_filterMapM (s.exists_run_transitiveRequest (.ofArtifact d.artifact)) nodes m'
      rw [hys] at hrun
      cases hrun

/-- The direct part gives the triple of the project for its node. -/
theorem directPart_ok {visible : Filter} {d : Dependency} {l l' : Ledger (Bench σ)} {es : Contribution}
    (h : (s.directPart visible d).run l = (.ok es, l')) (t : Triple) :
    (∃ e ∈ es, t.Names e) ↔ s.GivesDirectly d t := by
  unfold directPart at h
  split at h
  · rename_i hnone
    cases h
    constructor
    · rintro ⟨e, he, -⟩
      simp at he
    · rintro ⟨hart, n, hn, -⟩
      rw [← OrderedMap.find?_congr _ hart, hnone] at hn
      cases hn
  · rename_i n hn
    rcases Step.run_bind_ok_iff.1 h with ⟨_, m, -, hrest⟩
    rcases Step.run_bind_ok_iff.1 hrest with ⟨e, m', he, hpure⟩
    cases hpure
    -- the one request names the artifact, the version of its node and the project
    have hsays : e.1 = .ofArtifact d.artifact ∧ e.2.expected = ⟨n.artifact.version⟩ ∧
        e.2.request.requester = .ofProject s.project := by
      unfold directRequest at he
      rcases Step.run_bind_ok_iff.1 he with ⟨versions, m₁, -, he⟩
      dsimp only at he
      split at he
      · cases he
      · rcases Step.run_bind_ok_iff.1 he with ⟨conflict, m₂, -, he⟩
        cases he
        exact ⟨rfl, rfl, rfl⟩
    rcases hsays with ⟨hid, hexpected, hrequester⟩
    simp only [List.mem_singleton, exists_eq_left, Triple.Names, Request.name, hid, hexpected, hrequester]
    constructor
    · rintro ⟨hart, hver, hreq⟩
      refine ⟨hart, n, ?_, hver, hreq⟩
      rw [← OrderedMap.find?_congr _ hart]
      exact hn
    · rintro ⟨hart, n', hn', hver, hreq⟩
      rw [← OrderedMap.find?_congr _ hart, hn, Option.some.injEq] at hn'
      subst hn'
      exact ⟨hart, hver, hreq⟩

/-- The transitive part gives what the dependency's own graph passes on, and nothing if a model cannot be read. -/
theorem transitivePart_ok {d : Dependency} {n : Node} {l l' : Ledger (Bench σ)} {es : Contribution}
    (h : (s.transitivePart d n).run l = (.ok es, l')) :
    ∃ f, Filter.passedOn d.scope = .ok f ∧
      ((∃ e, e.isUnreadableModel = true ∧ s.ownMap d n f l = .error e) ∧ es = [] ∨
        ∃ map, s.ownMap d n f l = .ok map ∧ ∀ t : Triple, (∃ e ∈ es, t.Names e) ↔ s.PassesOn d f map t) := by
  rcases Step.run_bind_ok_iff.1 h with ⟨f, m, hf, hrest⟩
  rw [Step.run_ofExcept, Prod.mk.injEq] at hf
  rcases hf with ⟨hf, rfl⟩
  refine ⟨f, hf, ?_⟩
  rcases Step.run_bind_ok_iff.1 hrest with ⟨r, m, hr, hrest⟩
  rw [Step.run_outcome, Prod.mk.injEq, Except.ok.injEq] at hr
  rcases hr with ⟨hr, rfl⟩
  -- the requests are given, or they have failed for a model, or in another way
  split at hrest
  · rename_i requests
    cases hrest
    exact .inr (transitiveRequests_ok hr)
  · rename_i e
    split at hrest
    · rename_i he
      refine .inl ⟨⟨e, he, transitiveRequests_unreadable he hr⟩, ?_⟩
      split at hrest
      · rcases Step.run_bind_ok_iff.1 hrest with ⟨_, _, -, hnothing⟩
        cases hnothing
        rfl
      · cases hrest
        rfl
    · cases hrest

/-- What a task gives is what its direct part gives, followed by what its transitive part gives, if it has one. -/
theorem contribution_parts {visible : Filter} {d : Dependency} {k : Ledger (Bench σ)} {es : Contribution}
    (h : ((s.contribution visible d).run k).1 = .ok es) :
    ∃ direct m transitive, (s.directPart visible d).run k = (.ok direct, m) ∧ es = direct ++ transitive ∧
      (transitive = [] ∨ ∃ n m', (s.transitivePart d n).run m = (.ok transitive, m')) ∧
      ∀ t : Triple, (∃ e ∈ transitive, t.Names e) ↔ s.GivesTransitively visible d k t := by
  rcases Step.run_bind_ok_iff.1 (Prod.ext h rfl) with ⟨direct, m, hdirect, hrest⟩
  have hm : ((s.directPart visible d).run k).2 = m := congrArg Prod.snd hdirect
  unfold GivesTransitively
  rw [hm]
  split at hrest
  · rename_i hnone
    cases hrest
    exact ⟨_, _, [], hdirect, (List.append_nil _).symm, .inl rfl, by simp [hnone]⟩
  · rename_i n hn
    rcases Step.run_bind_ok_iff.1 hrest with ⟨_, m', hvisible, htail⟩
    -- the check of visibility leaves no trace
    obtain rfl : m' = m := by
      unfold checkVisible at hvisible
      split at hvisible
      · cases hvisible
        rfl
      · cases hvisible
    -- nothing is passed on by what the system provides
    by_cases hsystem : d.scope = "system"
    · rw [if_pos hsystem] at htail
      cases htail
      exact ⟨_, _, [], hdirect, (List.append_nil _).symm, .inl rfl, by simp [hsystem]⟩
    · rw [if_neg hsystem] at htail
      rcases Step.run_bind_ok_iff.1 htail with ⟨transitive, m'', htransitive, hpure⟩
      cases hpure
      rcases transitivePart_ok htransitive with ⟨f, hf, hown⟩
      refine ⟨direct, m', transitive, hdirect, rfl, .inr ⟨n, _, htransitive⟩, fun t => ?_⟩
      have hrequests : (∃ e ∈ transitive, t.Names e) ↔ ∃ map, s.ownMap d n f m' = .ok map ∧ s.PassesOn d f map t := by
        rcases hown with ⟨⟨e, -, hunreadable⟩, rfl⟩ | ⟨map, hmap, hpasses⟩
        · simp [hunreadable]
        · simp [hmap, hpasses t]
      rw [hrequests]
      constructor
      · rintro ⟨map, hmap, hpasses⟩
        exact ⟨n, f, map, hn, hsystem, hf, hmap, hpasses⟩
      · rintro ⟨n', f', map, hn', -, hf', hmap, hpasses⟩
        obtain rfl : n = n' := Option.some.inj (hn.symm.trans hn')
        obtain rfl : f = f' := Except.ok.inj (hf.symm.trans hf')
        exact ⟨map, hmap, hpasses⟩

/-- What a task gives is what its dependency gives, directly or transitively. -/
theorem contribution_ok {visible : Filter} {d : Dependency} {k : Ledger (Bench σ)} {es : Contribution}
    (h : ((s.contribution visible d).run k).1 = .ok es) (t : Triple) :
    (∃ e ∈ es, t.Names e) ↔ s.GivesDirectly d t ∨ s.GivesTransitively visible d k t := by
  rcases contribution_parts h with ⟨direct, m, transitive, hdirect, rfl, -, htransitive⟩
  rw [← directPart_ok hdirect t, ← htransitive t]
  simp only [List.mem_append, or_and_right, exists_or]

/-- The scanned dependencies, each with the ledger that its task finds. -/
def starts (s : Setting σ) (visible : Filter) (l : Ledger (Bench σ)) :
    List (Option Dependency × Ledger (Bench σ)) :=
  Step.starts (s.attempt visible) s.scanned l

/-- Every scanned dependency has its task, and no other one has. -/
theorem exists_start_iff {visible : Filter} {l : Ledger (Bench σ)} {d : Option Dependency} :
    (∃ k, (d, k) ∈ s.starts visible l) ↔ d ∈ s.scanned := by
  have hscanned : (s.starts visible l).map (·.1) = s.scanned := Step.map_fst_starts _ _ _
  rw [← hscanned, List.mem_map]
  constructor
  · rintro ⟨k, hk⟩
    exact ⟨(d, k), hk, rfl⟩
  · rintro ⟨⟨d', k⟩, hk, rfl⟩
    exact ⟨k, hk⟩

end Setting

/-! ## The triples of an analysis -/

/-- The map of an analysis is sound and complete: a triple is in it just if some scanned dependency gives it.
Every triple has one place in the map. -/
theorem holds_iff_given {resolver : Resolver σ} {registry : Registry} {c : Configuration}
    {reactor : List Project} {project : Project} {l l' : Ledger σ} {a : Analysis}
    (hrun : (analyze resolver registry c reactor project).run l = (.ok (some a), l')) :
    a.project = project ∧ ∃ assignment visible m,
      Assignment.make registry c.rules c.defaultStrategy = .ok assignment ∧
      Filter.visible c.scope = .ok visible ∧
      (resolver.mapProject (Setting.policy c reactor) project visible).run l = (.ok a.root, m) ∧
      a.requests.Unrepeated ∧
      ∀ t, a.requests.Holds t ↔
        ∃ d k, (some d, k) ∈ (a.setting resolver c reactor).starts visible (m.bench assignment) ∧
          ((a.setting resolver c reactor).GivesDirectly d t ∨
            (a.setting resolver c reactor).GivesTransitively visible d k t) := by
  rcases analyze_ok hrun with ⟨hproject, assignment, visible, m, finish, hmake, hvisible, hroot, htasks, -⟩
  rcases Setting.resolutionMap_ok htasks with ⟨ends, hruns, hends, hrequests⟩
  refine ⟨hproject, assignment, visible, m, hmake, hvisible, hroot, ?_, ?_⟩
  · rw [hrequests]
    exact ResolutionMap.unrepeated_ofList _
  · intro t
    rw [hrequests, ResolutionMap.holds_ofList_iff]
    -- the end of a task tells what the task gave when it was run
    have htask : ∀ d k e, ((Setting.attempt (a.setting resolver c reactor) visible d).run k).1 = .ok e → e ∈ ends →
        ((Setting.task (a.setting resolver c reactor) visible d).run k).1 = .ok e.requests := by
      intro d k e he hmem
      rw [Setting.run_attempt] at he
      obtain rfl := Except.ok.inj he
      exact hends _ hmem
    constructor
    · rintro ⟨q, hq, hnames⟩
      rcases List.mem_flatMap.1 hq with ⟨e, he, hq⟩
      rcases hruns.exists_start he with ⟨d, k, hk, hgives⟩
      have hrequests := htask d k e hgives he
      cases d with
      | none => cases hrequests
      | some d => exact ⟨d, k, hk, (Setting.contribution_ok hrequests t).1 ⟨q, hq, hnames⟩⟩
    · rintro ⟨d, k, hk, hgives⟩
      rcases hruns.exists_value hk with ⟨e, he, hrun⟩
      rcases (Setting.contribution_ok (htask _ k e hrun he) t).2 hgives with ⟨q, hq, hnames⟩
      exact ⟨q, List.mem_flatMap.2 ⟨e, he, hq⟩, hnames⟩

/-- What the small project and its library give. -/
theorem holds_iff_given_utility : ∃ a l', Sample.audit = (.ok (some a), l') ∧
    a.project = Sample.project ∧ ∃ assignment visible m,
      Assignment.make (.ofList []) Sample.configuration.rules Sample.configuration.defaultStrategy = .ok assignment ∧
      Filter.visible Sample.configuration.scope = .ok visible ∧
      ((Resolver.ofTable Sample.table).mapProject (Setting.policy Sample.configuration []) Sample.project visible).run
        ⟨(), []⟩ = (.ok a.root, m) ∧
      a.requests.Unrepeated ∧
      ∀ t, a.requests.Holds t ↔
        ∃ d k, (some d, k) ∈ (Sample.setting a).starts visible (m.bench assignment) ∧
          ((Sample.setting a).GivesDirectly d t ∨ (Sample.setting a).GivesTransitively visible d k t) := by
  obtain ⟨a, l', hrun, -⟩ :=
    Sample.exists_of_lists (n := .ofArtifact (Sample.utility "1.0")) (by decide +kernel)
  exact ⟨a, l', hrun, holds_iff_given hrun⟩

end VersionAudit
