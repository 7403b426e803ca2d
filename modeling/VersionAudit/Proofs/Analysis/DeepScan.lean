import VersionAudit.Proofs.Analysis.Contributions
import VersionAudit.Proofs.Analysis.TaskOrder
import VersionAudit.Proofs.DepsDev.Declared

/-!
# Deep scans

A regular scan asks the declared dependencies of a project what they expect, a deep scan the nodes of its graph. A
declared dependency that becomes a node directly below the project is asked by both: its scope and its exclusions go
with it, and its version, which does not, is not asked for.

1. `exists_direct_of_dependency`: the node of a declared dependency.
2. `Setting.ownMap_eq_of_left`: what a dependency expects does not depend on what was asked before.
3. `holds_deep_of_holds_regular`: the deep scan finds all that the regular one does.
-/

namespace VersionAudit

open DepsDev

variable {σ : Type}

/-- Each declared dependency of a project becomes a child of the root of the project's graph. -/
def EachBelowRoot (r : Resolver σ) (p : Project) (visible : Filter) (l : Ledger σ) : Prop :=
  ∃ o m, (r.project p visible).run l = (.ok o, m) ∧ ∀ d ∈ p.dependencies, ∃ c n,
    (c, n) ∈ o.graph.children o.graph.root ∧ (n.identity == .ofArtifact d.artifact) = true

section Scans

variable {t : Transport σ} {timeout : Int}

/-- If each declared dependency becomes a child of the root, and no two of them have the same identity, each is found
directly below the project in some version. -/
theorem DepsDev.exists_direct_of_dependency {p : Project} {visible : Filter} {policy : RecoveryPolicy}
    {l l' : Ledger (Memory σ)} {root : DependencyMap}
    (hrun : ((resolver t timeout).mapProject policy p visible).run l = (.ok root, l'))
    (hdistinct : p.dependencies.Pairwise fun d e =>
      (Identity.ofArtifact d.artifact == Identity.ofArtifact e.artifact) = false)
    (hbelow : EachBelowRoot (resolver t timeout) p visible l) {d : Dependency} (hd : d ∈ p.dependencies) :
    ∃ v more, root.direct.find? (.ofArtifact d.artifact) = some (withChildren more (declaredNode (inVersion d v))) := by
  have hchoose : ∀ d ∈ p.dependencies, Step.Ensures (fun _ => True) (chooseVersion t timeout d) fun version? =>
      ∀ v, version? = some v → True :=
    fun _ _ => .of_forall fun _ _ _ => trivial
  have hfetch : ∀ a, Step.Ensures (fun _ => True) (fetchGraph t timeout a) fun _ => True :=
    fun _ => .of_forall fun _ => trivial
  -- some child has the identity of the dependency, so a node is found by it
  have hsome : (root.direct.find? (.ofArtifact d.artifact)).isSome = true := by
    obtain ⟨o, m, hproject, hchildren⟩ := hbelow
    obtain ⟨o', m', hresolve, hmap⟩ := Step.run_bind_ok_iff.1 hrun
    obtain rfl : o = o' := Except.ok.inj (congrArg Prod.fst (hproject.symm.trans hresolve))
    obtain ⟨c, n, hn, hidentity⟩ := hchildren d hd
    obtain ⟨hadmits, -⟩ := chosen_of_child hchoose hfetch trivial hproject hn
    rw [Outcome.eq_flatten_of_run_toMap hmap, ← OrderedMap.find?_congr _ hidentity]
    exact Graph.direct_flatten_complete hn hadmits
  obtain ⟨n, hn⟩ := Option.isSome_iff_exists.1 hsome
  obtain ⟨hidentity, -, more, _, rfl, e, he, v, -, rfl, -⟩ := chosen_of_direct hchoose hfetch trivial hrun hn
  -- it is the node of a dependency with that identity, of which there is only one
  obtain rfl : e = d := Dependency.eq_of_distinct hdistinct he hd hidentity
  exact ⟨v, more, hn⟩

variable {s : Setting (Memory σ)} {fresh : Assignment}

/-- The own graph of a dependency does not depend on what was asked before. -/
theorem Setting.ownMap_eq_of_left (ht : t.Steady) (hs : s.resolver = DepsDev.resolver t timeout) (d : Dependency)
    (n : Node) (f : Filter) {l k : Ledger (Bench (Memory σ))} (hl : l.state.source.Left t timeout)
    (hk : k.state.source.Left t timeout) : s.ownMap d n f l = s.ownMap d n f k := by
  have hblind : s.resolver.Blind (BothLeft t timeout) := by
    rw [hs]
    exact blind_resolver ht
  exact (hblind.node (policy s.configuration s.reactor) n (.all [f, .excluding d.exclusions]) ⟨l.state.source, l.notes⟩
    ⟨k.state.source, k.notes⟩ ⟨hl, hk⟩).2.eq

/-- The direct part of a task leaves a bench like that before it. -/
theorem Setting.left_of_directPart (ht : t.Steady) (hs : s.resolver = DepsDev.resolver t timeout)
    (hroot : s.root.Coherent) (hfresh : fresh.Remembers fresh) (visible : Filter) (d : Dependency)
    {l : Ledger (Bench (Memory σ))} (hl : l.state.Left t timeout fresh) :
    ((s.directPart visible d).run l).2.state.Left t timeout fresh := by
  have hblind : s.resolver.Blind (BothLeft t timeout) := by
    rw [hs]
    exact blind_resolver ht
  have hrelated : Step.Related (Linked (BothLeft t timeout) fresh) (s.directPart visible d)
      ((s.waiving []).directPart visible d) _ := related_directPart hblind hroot visible d
  have hlinked := (hrelated l l (linked_of_left hfresh hl hl)).1
  exact ⟨hlinked.source.1, hlinked.left⟩

/-- Every task finds such a bench. -/
theorem Setting.left_of_start (ht : t.Steady) (hs : s.resolver = DepsDev.resolver t timeout) (hroot : s.root.Coherent)
    (hfresh : fresh.Remembers fresh) {visible : Filter} {l k : Ledger (Bench (Memory σ))}
    (hl : l.state.Left t timeout fresh) {d : Option Dependency} (hk : (d, k) ∈ s.starts visible l) :
    k.state.Left t timeout fresh :=
  Step.starts_keep (fun d _ hm => (run_attempt_of_left ht hs hroot hfresh visible d hm hm).2) hl hk

/-- The setting of a deep or a regular scan. -/
def Configuration.scanning (c : Configuration) (deep : Bool) : Configuration :=
  { c with deepScan := deep }

def Setting.scanning (s : Setting σ) (deep : Bool) : Setting σ :=
  { s with configuration := s.configuration.scanning deep }

/-- What a dependency gives in one scan it gives in the other, in whatever version it is asked. -/
theorem Setting.gives_scanning (ht : t.Steady) (hs : s.resolver = DepsDev.resolver t timeout) (hroot : s.root.Coherent)
    (hfresh : fresh.Remembers fresh) {visible : Filter} {d : Dependency} {k k' : Ledger (Bench (Memory σ))}
    (hk : k.state.Left t timeout fresh) (hk' : k'.state.Left t timeout fresh) (v : String) (deep : Bool)
    {triple : Triple} (h : s.GivesDirectly d triple ∨ s.GivesTransitively visible d k triple) :
    (s.scanning deep).GivesDirectly (inVersion d v) triple ∨
      (s.scanning deep).GivesTransitively visible (inVersion d v) k' triple := by
  refine h.imp id ?_
  rintro ⟨n, f, map, hn, hsystem, hf, hown, hpasses⟩
  refine ⟨n, f, map, hn, hsystem, hf, ?_, hpasses⟩
  have hleft := left_of_directPart ht hs hroot hfresh visible d hk
  have hleft' := left_of_directPart (s := s.scanning deep) ht hs hroot hfresh visible (inVersion d v) hk'
  rw [← hown]
  exact ownMap_eq_of_left ht hs d n f hleft'.source hleft.source

/-- The deep scan finds all that the regular scan finds. With a service that does not change its mind, take a project
whose declared dependencies are told apart by their identities and all become children of the root. If both scans give
an analysis, on whatever earlier runs have left, every triple in the map of the regular one is in that of the deep
one. -/
theorem holds_deep_of_holds_regular (ht : t.Steady) {registry : Registry} {c : Configuration} {reactor : List Project}
    {project : Project} {l₁ l₁' l₂ l₂' : Ledger (Memory σ)} {a₁ a₂ : Analysis} (hl₁ : l₁.state.Left t timeout)
    (hl₂ : l₂.state.Left t timeout)
    (hregular : (analyze (DepsDev.resolver t timeout) registry (c.scanning false) reactor project).run l₁ =
      (.ok (some a₁), l₁'))
    (hdeep : (analyze (DepsDev.resolver t timeout) registry (c.scanning true) reactor project).run l₂ =
      (.ok (some a₂), l₂'))
    (hdistinct : project.dependencies.Pairwise fun d e =>
      (Identity.ofArtifact d.artifact == Identity.ofArtifact e.artifact) = false)
    (hbelow : ∀ visible, Filter.visible c.scope = .ok visible →
      EachBelowRoot (DepsDev.resolver t timeout) project visible l₁)
    {triple : Triple} (h : a₁.requests.Holds triple) : a₂.requests.Holds triple := by
  obtain ⟨hproject₁, fresh, visible, m₁, hmake, hvisible, hroot₁, -, hgiven₁⟩ := holds_iff_given hregular
  obtain ⟨hproject₂, fresh₂, visible₂, m₂, hmake₂, hvisible₂, hroot₂, -, hgiven₂⟩ := holds_iff_given hdeep
  obtain rfl : visible = visible₂ := Except.ok.inj (hvisible.symm.trans hvisible₂)
  obtain rfl : fresh = fresh₂ := Except.ok.inj (hmake.symm.trans hmake₂)
  -- both scans are of the same map of the project's graph
  have hmaps := (repeats_resolver ht).project (Setting.policy c reactor) project visible l₁ l₂ ⟨hl₁, hl₂⟩
  have hrun₁ : ((resolver t timeout).mapProject (Setting.policy c reactor) project visible).run l₁ = (.ok a₁.root, m₁) :=
    hroot₁
  have hrun₂ : ((resolver t timeout).mapProject (Setting.policy c reactor) project visible).run l₂ = (.ok a₂.root, m₂) :=
    hroot₂
  rw [hrun₁, hrun₂] at hmaps
  obtain ⟨⟨hm₁, hm₂⟩, halike⟩ := hmaps
  have hsetting : a₂.setting (resolver t timeout) (c.scanning true) reactor =
      (a₁.setting (resolver t timeout) (c.scanning false) reactor).scanning true := by
    unfold Analysis.setting
    rw [hproject₂, ← hproject₁, ← Except.ok.inj halike.eq]
    rfl
  have hcoherent := Resolver.coherent_of_run_mapProject hrun₁
  have hfresh := Assignment.remembers_make hmake
  obtain ⟨d, k, hk, hgives⟩ := (hgiven₁ triple).1 h
  have hd : d ∈ project.dependencies := by
    have hscanned : some d ∈ a₁.project.dependencies.map some := Setting.exists_start_iff.1 ⟨k, hk⟩
    rw [← hproject₁]
    exact (List.mem_map_of_injective (Option.some_injective _)).1 hscanned
  -- the deep scan asks the node of the dependency
  obtain ⟨v, more, hdirect⟩ := exists_direct_of_dependency hrun₁ hdistinct (hbelow visible hvisible) hd
  have hnode : withChildren more (declaredNode (inVersion d v)) ∈ a₁.root.all.values :=
    hcoherent.mem_values_iff.2 (hcoherent.direct _ _ hdirect)
  obtain ⟨k₂, hk₂⟩ : ∃ k₂, (some (inVersion d v), k₂) ∈
      (a₂.setting (resolver t timeout) (c.scanning true) reactor).starts visible (m₂.bench fresh) := by
    rw [Setting.exists_start_iff, hsetting]
    exact List.mem_map_of_mem (f := Node.dependency) hnode
  refine (hgiven₂ triple).2 ⟨inVersion d v, k₂, hk₂, ?_⟩
  rw [hsetting] at hk₂ ⊢
  have hkleft := Setting.left_of_start ht rfl hcoherent hfresh ⟨hm₁, .start⟩ hk
  have hkleft₂ := Setting.left_of_start ht rfl hcoherent hfresh ⟨hm₂, .start⟩ hk₂
  exact Setting.gives_scanning ht rfl hcoherent hfresh hkleft hkleft₂ v true hgives

end Scans

/-! ## Two scans of crossing graphs -/

namespace DepsDev.Crossing

def configuration : Configuration :=
  { scope := "compile", defaultStrategy := some "apr" }

/-- The end of a deep or a regular scan on a memory in which nothing is kept. -/
def scan (deep : Bool) : Except Failure (Option Analysis) × Ledger (Memory Unit) :=
  (analyze (resolver service 30) (.ofList []) (configuration.scanning deep) [] project).run ledger

/-- All that the deep scan finds stands below the root. -/
theorem eachBelowRoot_project {visible : Filter} (hvisible : Filter.visible configuration.scope = .ok visible) :
    EachBelowRoot (resolver service 30) project visible ledger := by
  obtain rfl := Except.ok.inj hvisible
  have hbelow : (((resolver service 30).project project (.scopes ["compile", "provided", "system"])).run
      ledger).1.toOption.any (fun o => project.dependencies.all fun d =>
        (o.graph.children o.graph.root).any fun e => e.2.identity == .ofArtifact d.artifact) = true := by
    decide +kernel
  obtain ⟨o, ho, hall⟩ := (Option.any_eq_true _ _).1 hbelow
  obtain ⟨m, hrun⟩ := Except.exists_of_toOption ho
  refine ⟨o, m, hrun, fun d hd => ?_⟩
  obtain ⟨⟨c, n⟩, hn, hidentity⟩ := List.any_eq_true.1 (List.all_eq_true.1 hall d hd)
  exact ⟨c, n, hn, hidentity⟩

/-- Both scans of the project give an analysis. The deep one has all that the regular one says of its four artifacts. -/
theorem holds_deep_of_holds_regular_crossing : ∃ a₁ a₂, (scan false).1 = .ok (some a₁) ∧ (scan true).1 = .ok (some a₂) ∧
    a₁.requests.entries.length = 4 ∧ ∀ triple, a₁.requests.Holds triple → a₂.requests.Holds triple := by
  have hregular : (scan false).1.toOption.join.map (·.requests.entries.length) = some 4 := by
    decide +kernel
  have hdeep : (scan true).1.toOption.join.isSome = true := by
    decide +kernel
  have hdistinct : project.dependencies.Pairwise fun d e =>
      (Identity.ofArtifact d.artifact == Identity.ofArtifact e.artifact) = false := by
    decide +kernel
  obtain ⟨a₁, hsome₁, hlength⟩ := Option.map_eq_some_iff.1 hregular
  obtain ⟨a₂, hsome₂⟩ := Option.isSome_iff_exists.1 hdeep
  obtain ⟨l₁, hscan₁⟩ := Except.exists_of_toOption (Option.join_eq_some_iff.1 hsome₁)
  obtain ⟨l₂, hscan₂⟩ := Except.exists_of_toOption (Option.join_eq_some_iff.1 hsome₂)
  refine ⟨a₁, a₂, congrArg Prod.fst hscan₁, congrArg Prod.fst hscan₂, hlength, fun triple h => ?_⟩
  have hservice : service.Steady := fun _ _ _ => rfl
  exact holds_deep_of_holds_regular hservice (.fresh ()) (.fresh ()) hscan₁ hscan₂ hdistinct
    (fun _ hvisible => eachBelowRoot_project hvisible) h

end DepsDev.Crossing

end VersionAudit
