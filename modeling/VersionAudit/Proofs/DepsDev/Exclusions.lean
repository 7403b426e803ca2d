import VersionAudit.Proofs.DepsDev.Resolutions
import VersionAudit.Proofs.Identity

/-!
# Exclusions during the walk and afterwards

The exclusions of a dependency take effect at two places. For a project the walk does not enter the packages they
cover. For the dependency alone the walk takes its whole graph, and what they cover is cut off when the tree is
flattened, each node with all that hangs below it.

1. `SparedEdge` and `FirstSparedEdge`: the edges that count at the first place and at the second one.
2. `attaches_iff`: below a declared dependency hangs what spared edges lead to.
3. `exists_mapNode`: the flattened graph of the dependency shows what first spared edges lead to.
4. `flattened_eq_walked_iff`: when the two agree.
-/

namespace VersionAudit.DepsDev

open Relation PackageGraph

namespace PackageGraph

variable (g : PackageGraph)

/-- An edge to a package that no exclusion covers. -/
def SparedEdge (exclusions : List Exclusion) (i j : Int) : Prop :=
  j ∈ g.targets i ∧ g.Spares exclusions j

/-- The edge on which a walk that excludes nothing finds a package, if no exclusion covers the package. -/
def FirstSparedEdge (exclusions : List Exclusion) (a : Artifact) (start i j : Int) : Prop :=
  g.Found (g.isOther a) start i j ∧ g.Spares exclusions j

/-- The package at a place has an identity. -/
def Shows (j : Int) (id : Identity) : Prop :=
  ∃ q, g.package? j = some q ∧ (Identity.ofArtifact q.artifact == id) = true

variable {g}

/-- An edge to an open place, if just the spared places other than the start are open, starts a path of spared
edges. Such paths may come back to the start; what follows then is reached without the detour. -/
theorem transGen_openEdge_iff {isOpen : Int → Bool} {exclusions : List Exclusion} {start : Int}
    (hopen : ∀ i, ∀ j ∈ g.targets i, isOpen j = true ↔ j ≠ start ∧ g.Spares exclusions j) {j : Int} :
    TransGen (g.OpenEdge isOpen) start j ↔ j ≠ start ∧ TransGen (g.SparedEdge exclusions) start j := by
  constructor
  · intro hpath
    induction hpath with
    | single hedge =>
      rcases (hopen _ _ hedge.1).1 hedge.2 with ⟨hne, hspared⟩
      exact ⟨hne, .single ⟨hedge.1, hspared⟩⟩
    | tail _ hedge ih =>
      rcases (hopen _ _ hedge.1).1 hedge.2 with ⟨hne, hspared⟩
      exact ⟨hne, .tail ih.2 ⟨hedge.1, hspared⟩⟩
  · rintro ⟨hne, hpath⟩
    induction hpath with
    | single hedge => exact .single ⟨hedge.1, (hopen _ _ hedge.1).2 ⟨hne, hedge.2⟩⟩
    | tail _ hedge ih =>
      rename_i i j _
      have hopenEdge : g.OpenEdge isOpen i j := ⟨hedge.1, (hopen _ _ hedge.1).2 ⟨hne, hedge.2⟩⟩
      -- a path that comes back to the start may begin there again
      by_cases hi : i = start
      · rw [hi] at hopenEdge
        exact .single hopenEdge
      · exact .tail (ih hi) hopenEdge

/-- Packages with equal identities stand at the same place. -/
theorem WellFormed.eq_of_shows (hg : g.WellFormed) {i i' j j' : Int} (h : j ∈ g.targets i) (h' : j' ∈ g.targets i')
    {id : Identity} (hj : g.Shows j id) (hj' : g.Shows j' id) : j = j' := by
  rcases hj with ⟨q, hq, hid⟩
  rcases hj' with ⟨q', hq', hid'⟩
  have hsame := BEq.trans hid (BEq.symm hid')
  refine hg.eq_of_key h h' hq hq' ?_
  exact Prod.ext (Identity.group_eq_of_beq hsame) (Identity.name_eq_of_beq hsame)

/-- Where spared edges lead there is a package. -/
theorem exists_package_of_spared {exclusions : List Exclusion} {i j : Int}
    (h : TransGen (g.SparedEdge exclusions) i j) : ∃ q, g.package? j = some q := by
  rcases TransGen.tail'_iff.1 h with ⟨_, -, -, q, hq, -⟩
  exact ⟨q, hq⟩

theorem exists_target_of_spared {exclusions : List Exclusion} {i j : Int}
    (h : TransGen (g.SparedEdge exclusions) i j) : ∃ i', j ∈ g.targets i' := by
  rcases TransGen.tail'_iff.1 h with ⟨i', -, hj, -⟩
  exact ⟨i', hj⟩

theorem FirstSparedEdge.spared {exclusions : List Exclusion} {a : Artifact} {start i j : Int}
    (h : g.FirstSparedEdge exclusions a start i j) : g.SparedEdge exclusions i j :=
  ⟨h.1.openEdge.1, h.2⟩

/-- Where first spared edges lead, spared edges lead to a place other than the start. -/
theorem IsGraphOf.spared_of_first {s : Nat} {a : Artifact} (hg : g.IsGraphOf s a) {exclusions : List Exclusion}
    {j : Int} (h : TransGen (g.FirstSparedEdge exclusions a s) s j) :
    j ≠ s ∧ TransGen (g.SparedEdge exclusions) s j := by
  have hne : ∀ {i j : Int}, g.FirstSparedEdge exclusions a s i j → j ≠ s := by
    intro i j hfirst
    exact (hg.isOther_iff hfirst.1.openEdge.1).1 hfirst.1.openEdge.2
  induction h with
  | single hfirst => exact ⟨hne hfirst, .single hfirst.spared⟩
  | tail _ hfirst ih => exact ⟨hne hfirst, .tail ih.2 hfirst.spared⟩

end PackageGraph

section Shown

variable {σ : Type} {t : Transport σ} {timeout : Int} {g : PackageGraph} {s : Nat} {a : Artifact}

/-! ## What the walk attaches -/

/-- The package at the place of a leaf gives the leaf its identity. -/
theorem identity_leafAt {p : Pending} {j : Int} {id : Identity} {q : Package} (hq : p.graph.package? j = some q) :
    ((leafAt p j).identity == id) = true ↔ p.graph.Shows j id := by
  unfold leafAt Shows
  rw [hq]
  simp only [Option.some.injEq, exists_eq_left']
  rfl

/-- A node with an identity hangs below the node of a request, which is a child of the root. -/
def Attaches (o : Outcome) (d : Dependency) (id : Identity) : Prop :=
  ∃ c m, (c, m) ∈ o.graph.children o.graph.root ∧ m.dependency = some d ∧
    ∃ n, o.graph.Reaches (fun _ => true) c n ∧ (n.identity == id) = true

/-- Below the declared dependency hangs what spared edges lead to. -/
theorem attaches_iff {p : Project} {d chosen : Dependency} {version : String} (hchosen : inVersion d version = chosen)
    (hg : g.IsGraphOf s chosen.artifact) (hp : OnlyDeclares p d g) {edges : List (Nat × Int)}
    (hsettled : g.Settled (isOpen (declaredPending g s p chosen) (declaredMerge g s p chosen)) s edges) {o : Outcome}
    (ho : o.graph = grown (declaredPending g s p chosen) (declaredMerge g s p chosen) edges 0) (id : Identity) :
    Attaches o chosen id ↔ ∃ j : Int, j ≠ s ∧ TransGen (g.SparedEdge d.exclusions) s j ∧ g.Shows j id := by
  have halone := alone_declared hchosen hg hp
  have hadmitted : FoundAdmitted (declaredPending g s p chosen) (declaredMerge g s p chosen) (fun _ => true) =
      g.Found (isOpen (declaredPending g s p chosen) (declaredMerge g s p chosen)) s := by
    funext i j
    exact propext (and_iff_left rfl)
  -- nodes are put below the place they were found from, along open edges
  have hway : ∀ j, TransGen (FoundAdmitted (declaredPending g s p chosen) (declaredMerge g s p chosen) fun _ => true) s j ↔
      j ≠ s ∧ TransGen (g.SparedEdge d.exclusions) s j := by
    intro j
    rw [hadmitted, hsettled.transGen_found_iff, transGen_openEdge_iff (isOpen_declared hchosen hg hp)]
  have hreads : ReadsRequest fun _ => true := fun _ _ => rfl
  have hreaches := reaches_iff halone hsettled hreads 0 id
  unfold Attaches
  rw [ho]
  constructor
  · rintro ⟨c, m, hmem, hm, hreach⟩
    obtain rfl := (mem_children_root hchosen hg hp hsettled).1 ⟨m, hmem, hm⟩
    rcases hreaches.1 hreach with ⟨j, hj, hid⟩
    rcases (hway j).1 hj with ⟨hne, hpath⟩
    rcases exists_package_of_spared hpath with ⟨q, hq⟩
    exact ⟨j, hne, hpath, (identity_leafAt hq).1 hid⟩
  · rintro ⟨j, hne, hpath, hshows⟩
    rcases exists_package_of_spared hpath with ⟨q, hq⟩
    rcases (mem_children_root hchosen hg hp hsettled).2 rfl with ⟨m, hmem, hm⟩
    exact ⟨1, m, hmem, hm, hreaches.2 ⟨j, (hway j).2 ⟨hne, hpath⟩, (identity_leafAt hq).2 hshows⟩⟩

/-! ## What flattening shows -/

/-- A complete outcome needs no recovery. -/
theorem run_toMap_of_resolved (policy : RecoveryPolicy) (f : Filter) {o : Outcome} (ho : o.unresolved = [])
    (k : Ledger (Memory σ)) :
    (o.toMap policy f : Step (Memory σ) DependencyMap).run k = (.ok (o.graph.flatten f.admits), k) := by
  have hrecover : o.recoverAll policy.reactor policy.systemMustResolve = (o, .ok ()) := by
    unfold Outcome.recoverAll Outcome.recoverBuilt Outcome.recoverSystem Outcome.recoverWhere
    rw [ho]
    cases policy.systemMustResolve <;> simp [Outcome.recover, ho]
  have haccept : (o.accept : Step (Memory σ) Unit) = pure () := by
    unfold Outcome.accept
    rw [ho]
    rfl
  unfold Outcome.toMap
  rw [hrecover]
  dsimp only
  rw [haccept]
  rfl

/-- Nodes that a walk without management puts below an artifact are all passed on. -/
theorem admits_leafAt {f : Filter} (hf : Filter.passedOnBy "compile" = some f) {exclusions : List Exclusion}
    {p : Pending} {j : Int} {q : Package} (hq : p.graph.package? j = some q) :
    (Filter.all [f, .excluding exclusions]).admits (leafAt p j) = true ↔ p.graph.Spares exclusions j := by
  obtain rfl : f = .scopes ["compile", "provided", "system"] := (Option.some.inj hf).symm
  rw [spares_iff hq]
  unfold leafAt
  rw [hq]
  simp only [Option.getD_some, Filter.admits, Filter.admitsAll]
  have hscope : Filter.inScopes ["compile", "provided", "system"] q.leaf = true := rfl
  rw [hscope]
  simp [Package.leaf]

/-- The flattened graph of an artifact shows what first spared edges lead to. -/
theorem exists_mapNode (policy : RecoveryPolicy) (hg : g.IsGraphOf s a) {n : Node} (hn : n.artifact = a) {f : Filter}
    (hf : Filter.passedOnBy "compile" = some f) (exclusions : List Exclusion) {k k' : Ledger (Memory σ)}
    (hfetch : (fetchGraph t timeout a).run k = (.ok (some g), k')) :
    ∃ map, ((resolver t timeout).mapNode policy n (.all [f, .excluding exclusions])).run k = (.ok map, k') ∧
      ∀ id, (map.all.find? id).isSome ↔ ∃ j, TransGen (g.FirstSparedEdge exclusions a s) s j ∧ g.Shows j id := by
  rcases exists_resolveNode hg hn hfetch with ⟨edges, o, hresolve, hresolved, hsettled, ho⟩
  refine ⟨o.graph.flatten (Filter.all [f, .excluding exclusions]).admits, ?_, ?_⟩
  · show (resolveNode t timeout n >>= fun o => o.toMap policy _ : Step (Memory σ) DependencyMap).run k = _
    rw [Step.run_bind, hresolve]
    exact run_toMap_of_resolved policy _ hresolved k'
  · intro id
    have halone := alone_own hg
    -- an admitted edge to an open place is a first spared edge
    have hfirst : FoundAdmitted (ownPending g s) (ownMerge g s a) (Filter.all [f, .excluding exclusions]).admits =
        g.FirstSparedEdge exclusions a s := by
      funext i j
      unfold FoundAdmitted FirstSparedEdge
      rw [isOpen_own]
      refine propext (and_congr_right fun hfound => ?_)
      rcases hg.wellFormed.exists_package hfound.openEdge.1 with ⟨q, hq⟩
      exact admits_leafAt (p := ownPending g s) hf hq
    have hreads : ReadsRequest (Filter.all [f, .excluding exclusions]).admits := by
      obtain rfl : f = .scopes ["compile", "provided", "system"] := (Option.some.inj hf).symm
      intro more n
      rfl
    rw [← isOpen_own] at hsettled
    have hreaches := reaches_iff halone hsettled hreads 0 id
    rw [hfirst] at hreaches
    rw [Graph.isSome_find?_all_flatten, ho]
    refine hreaches.trans (exists_congr fun j => and_congr_right fun hpath => ?_)
    rcases exists_package_of_spared (hg.spared_of_first hpath).2 with ⟨q, hq⟩
    exact identity_leafAt (p := ownPending g s) hq

end Shown

/-! ## Agreement -/

/-- Below a dependency that a project declares hangs just what can be reached past the exclusions, and the
flattened graph of the dependency never shows more than that. It shows all of it if and only if the first edge to
each package on the way is good enough: whatever paths of spared edges lead to, paths of first spared edges lead
to. -/
theorem flattened_eq_walked_iff {σ : Type} (t : Transport σ) (timeout : Int) (policy : RecoveryPolicy)
    {g : PackageGraph} {s : Nat} {p : Project} {d : Dependency} {version : String} {n : Node} {f visible : Filter}
    {k k' l l₁ l₂ : Ledger (Memory σ)} (hg : g.IsGraphOf s (inVersion d version).artifact)
    (hp : OnlyDeclares p d g) (hn : n.artifact = (inVersion d version).artifact)
    (hf : Filter.passedOnBy "compile" = some f) (hvisible : visible.admits (declaredNode (inVersion d version)) = true)
    (hchoose : (chooseVersion t timeout d).run l = (.ok (some version), l₁))
    (hproject : (fetchGraph t timeout (inVersion d version).artifact).run l₁ = (.ok (some g), l₂))
    (hnode : (fetchGraph t timeout (inVersion d version).artifact).run k = (.ok (some g), k')) :
    ∃ o map, ((resolver t timeout).project p visible).run l = (.ok o, l₂) ∧
      ((resolver t timeout).mapNode policy n (.all [f, .excluding d.exclusions])).run k = (.ok map, k') ∧
      (∀ id, Attaches o (inVersion d version) id ↔
        ∃ j : Int, j ≠ s ∧ TransGen (g.SparedEdge d.exclusions) s j ∧ g.Shows j id) ∧
      (∀ id, (map.all.find? id).isSome → Attaches o (inVersion d version) id) ∧
      ((∀ id, (map.all.find? id).isSome ↔ Attaches o (inVersion d version) id) ↔
        ∀ j : Int, j ≠ s → TransGen (g.SparedEdge d.exclusions) s j →
          TransGen (g.FirstSparedEdge d.exclusions (inVersion d version).artifact s) s j) := by
  rcases exists_resolveProject rfl hg hp hchoose hvisible hproject with ⟨edges, o, hresolve, hsettled, ho⟩
  rcases exists_mapNode policy hg hn hf d.exclusions hnode with ⟨map, hmap, hshown⟩
  have hattached := attaches_iff rfl hg hp hsettled ho
  have hsound : ∀ id, (map.all.find? id).isSome → Attaches o (inVersion d version) id := by
    intro id hid
    rcases (hshown id).1 hid with ⟨j, hfirst, hj⟩
    rcases hg.spared_of_first hfirst with ⟨hne, hpath⟩
    exact (hattached id).2 ⟨j, hne, hpath, hj⟩
  refine ⟨o, map, hresolve, hmap, hattached, hsound, ?_, ?_⟩
  · intro hsame j hne hpath
    rcases exists_package_of_spared hpath with ⟨q, hq⟩
    have hj : g.Shows j (.ofArtifact q.artifact) := ⟨q, hq, BEq.rfl⟩
    rcases (hshown _).1 ((hsame _).2 ((hattached _).2 ⟨j, hne, hpath, hj⟩)) with ⟨j', hfirst, hj'⟩
    -- the place found has the same identity, so it is the same place
    rcases exists_target_of_spared hpath with ⟨i, hi⟩
    rcases exists_target_of_spared (hg.spared_of_first hfirst).2 with ⟨i', hi'⟩
    obtain rfl := hg.wellFormed.eq_of_shows hi hi' hj hj'
    exact hfirst
  · intro hall id
    refine ⟨hsound id, fun hid => ?_⟩
    rcases (hattached id).1 hid with ⟨j, hne, hpath, hj⟩
    exact (hshown id).2 ⟨j, hall j hne hpath, hj⟩

/-! ## A diamond -/

namespace Diamond

/-- The packages `x` and `y` both lead to `z`, and `x` comes first. -/
def graph : PackageGraph where
  packages := #[⟨"g", "d", "1"⟩, ⟨"g", "x", "1"⟩, ⟨"g", "y", "1"⟩, ⟨"g", "z", "1"⟩]
  self := some 0
  edges := [(0, 1), (0, 2), (1, 3), (2, 3)]

/-- The request excludes `x`. -/
def request : Dependency :=
  { artifact := { group := "g", name := "d", version := "1" }, exclusions := [⟨"g", "x"⟩] }

def project : Project :=
  { group := "com.example", name := "app", version := "1", dependencies := [request] }

/-- A service that is never asked, since the graph is known. -/
def offline : Transport Unit :=
  ⟨fun _ s => (.failed "offline", s)⟩

def ledger : Ledger (Memory Unit) :=
  ⟨{ transport := (), graphs := .ofList [(("g", "d", "1"), some graph)] }, []⟩

theorem isGraphOf : graph.IsGraphOf 0 (inVersion request "1").artifact where
  wellFormed := by decide +kernel
  own := rfl
  root := ⟨⟨"g", "d", "1"⟩, rfl, rfl⟩

theorem onlyDeclares : OnlyDeclares project request graph where
  dependencies := rfl
  scope := rfl
  management := rfl
  apart := by
    intro i q hq
    have hkeys : ∀ q ∈ graph.packages, q.key ≠ (project.group, project.name) := by decide +kernel
    exact hkeys q (Array.mem_of_getElem? hq)

theorem run_chooseVersion : (chooseVersion offline 30 request).run ledger = (.ok (some "1"), ledger) := rfl

theorem run_fetchGraph :
    (fetchGraph offline 30 (inVersion request "1").artifact).run ledger = (.ok (some graph), ledger) := rfl

/-- What hangs below the request of the diamond, and when its flattened graph shows all of it. -/
theorem flattened_eq_walked_diamond :
    ∃ o map, ((resolver offline 30).project project (.scopes Scope.all)).run ledger = (.ok o, ledger) ∧
      ((resolver offline 30).mapNode {} (declaredNode (inVersion request "1"))
        (.all [.scopes ["compile", "provided", "system"], .excluding request.exclusions])).run ledger =
        (.ok map, ledger) ∧
      (∀ id, Attaches o (inVersion request "1") id ↔
        ∃ j : Int, j ≠ 0 ∧ TransGen (graph.SparedEdge request.exclusions) 0 j ∧ graph.Shows j id) ∧
      (∀ id, (map.all.find? id).isSome → Attaches o (inVersion request "1") id) ∧
      ((∀ id, (map.all.find? id).isSome ↔ Attaches o (inVersion request "1") id) ↔
        ∀ j : Int, j ≠ 0 → TransGen (graph.SparedEdge request.exclusions) 0 j →
          TransGen (graph.FirstSparedEdge request.exclusions (inVersion request "1").artifact 0) 0 j) :=
  flattened_eq_walked_iff offline 30 {} isGraphOf onlyDeclares rfl rfl rfl run_chooseVersion run_fetchGraph
    run_fetchGraph

/-- In the diamond `z` hangs below the request, by way of `y`, but the flattened graph of the request lacks it:
there it was put below `x`. -/
theorem not_flattened_eq_walked :
    ∃ o map, ((resolver offline 30).project project (.scopes Scope.all)).run ledger = (.ok o, ledger) ∧
      ((resolver offline 30).mapNode {} (declaredNode (inVersion request "1"))
        (.all [.scopes ["compile", "provided", "system"], .excluding request.exclusions])).run ledger =
        (.ok map, ledger) ∧
      Attaches o (inVersion request "1") ⟨"g", "z", some ("jar", none)⟩ ∧
      map.all.find? ⟨"g", "z", some ("jar", none)⟩ = none := by
  obtain ⟨edges, o, hresolve, hsettled, ho⟩ := exists_resolveProject (f := .scopes Scope.all) rfl isGraphOf onlyDeclares
    run_chooseVersion rfl run_fetchGraph
  obtain ⟨map, hmap, -⟩ := exists_mapNode {} isGraphOf (n := declaredNode (inVersion request "1")) rfl rfl
    request.exclusions run_fetchGraph
  refine ⟨o, map, hresolve, hmap, ?_, ?_⟩
  -- by way of `y`, which is spared
  · have hfirst : graph.SparedEdge request.exclusions 0 2 := ⟨by decide +kernel, ⟨"g", "y", "1"⟩, rfl, rfl⟩
    have hsecond : graph.SparedEdge request.exclusions 2 3 := ⟨by decide +kernel, ⟨"g", "z", "1"⟩, rfl, rfl⟩
    refine (attaches_iff rfl isGraphOf onlyDeclares hsettled ho _).2 ⟨3, by decide, .tail (.single hfirst) hsecond, ?_⟩
    exact ⟨⟨"g", "z", "1"⟩, rfl, by decide +kernel⟩
  · have hlacks : ((((resolver offline 30).mapNode {} (declaredNode (inVersion request "1"))
        (.all [.scopes ["compile", "provided", "system"], .excluding request.exclusions])).run ledger).1.toOption.map
        fun m => (m.all.find? ⟨"g", "z", some ("jar", none)⟩).isNone) = some true := by decide +kernel
    rw [hmap] at hlacks
    exact Option.isNone_iff_eq_none.1 (Option.some.inj hlacks)

end Diamond

end VersionAudit.DepsDev
