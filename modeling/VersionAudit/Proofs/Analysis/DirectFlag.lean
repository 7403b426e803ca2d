import VersionAudit.Proofs.Analysis.Contributions

/-!
# The flag of direct requests

A request of the project itself carries a flag. Of the requests for one version under one name the first one counts,
and a dependency of the project's own group and name, such as the archive of its tests, requests under the name of
the project as well. So the flag is lost where such a dependency passes an artifact on in the version that the
project's graph has for it, before the artifact's own dependency has its turn.

1. `directPart_flag`, `transitivePart_flag`: who sets the flag.
2. `find?_flatMap_iff`: whether the first request found is a direct one.
3. `isDirect_iff_claimed_iff`: exactly when the flag says what it should.
-/

namespace VersionAudit

variable {σ : Type}

/-! ## Who sets the flag -/

namespace Setting

variable {s : Setting σ}

/-- Of most steps it does not matter what they give. -/
theorem ensures_anything {τ α : Type} (step : Step τ α) : Step.Ensures (fun _ => True) step fun _ => True :=
  fun _ _ => ⟨trivial, fun _ _ => trivial⟩

/-- The direct part gives requests of the project with the flag. -/
theorem directPart_flag (visible : Filter) (d : Dependency) :
    Step.Ensures (fun _ => True) (s.directPart visible d) fun es =>
      ∀ e ∈ es, e.2.request.direct = true ∧ e.2.request.requester = .ofProject s.project := by
  unfold directPart
  split
  · exact .pure (by simp)
  · refine .bind (ensures_anything _) fun _ _ => ?_
    refine .bind (Q := fun e => e.2.request.direct = true ∧ e.2.request.requester = .ofProject s.project) ?_
      fun e he => .pure (by simpa using he)
    unfold directRequest
    refine .bind (ensures_anything _) fun versions _ => ?_
    dsimp only
    split
    · exact .fail
    · exact .bind (ensures_anything _) fun conflict _ => .pure ⟨rfl, rfl⟩

/-- The transitive part gives requests without it. -/
theorem transitivePart_flag (d : Dependency) (n : Node) :
    Step.Ensures (fun _ => True) (s.transitivePart d n) fun es => ∀ e ∈ es, e.2.request.direct = false := by
  refine ensures_transitivePart_of (fun step => ensures_anything _) (fun requester n => ?_) d n
  unfold transitiveRequest
  dsimp only
  split
  · exact .pure (by simp)
  · refine .bind (ensures_anything _) fun conflict _ => .pure ?_
    rintro e he
    obtain rfl := Option.some.inj he
    rfl

end Setting

/-! ## The first request -/

/-- Whether the first element found has a flag, if the elements come from a list part by part. Parts of one sort
give an element with the flag first, parts of another sort one without it, and all others none. -/
theorem find?_flatMap_iff {α β : Type} {p flag : β → Bool} {parts : α → List β} {S L : α → Prop} {xs : List α}
    (hsets : ∀ x ∈ xs, S x → ∃ y, (parts x).find? p = some y ∧ flag y = true)
    (hlacks : ∀ x ∈ xs, ¬ S x → L x → ∃ y, (parts x).find? p = some y ∧ flag y = false)
    (hnone : ∀ x ∈ xs, ¬ S x → ¬ L x → (parts x).find? p = none) :
    (∃ y, (xs.flatMap parts).find? p = some y ∧ flag y = true) ↔
      ∃ before x after, xs = before ++ x :: after ∧ S x ∧ ∀ x' ∈ before, ¬ L x' := by
  -- part by part, as the first one with an element decides
  induction xs with
  | nil => simp
  | cons x xs ih =>
    rw [List.flatMap_cons, List.find?_append]
    have hx := List.mem_cons_self (a := x) (l := xs)
    by_cases hsx : S x
    · obtain ⟨y, hy, hflag⟩ := hsets x hx hsx
      rw [hy]
      exact ⟨fun _ => ⟨[], x, xs, rfl, hsx, by simp⟩, fun _ => ⟨y, rfl, hflag⟩⟩
    · by_cases hlx : L x
      · -- the element is found without the flag, and stands before all others
        obtain ⟨y, hy, hflag⟩ := hlacks x hx hsx hlx
        rw [hy]
        constructor
        · rintro ⟨y', hy', hflag'⟩
          obtain rfl := Option.some.inj hy'
          rw [hflag] at hflag'
          cases hflag'
        · rintro ⟨before, x', after, heq, hsets', hbefore⟩
          rcases List.cons_eq_append_iff.1 heq with ⟨rfl, heq⟩ | ⟨before', rfl, -⟩
          · obtain ⟨rfl, -⟩ := List.cons.inj heq
            exact absurd hsets' hsx
          · exact absurd hlx (hbefore x (List.mem_cons_self ..))
      -- nothing is found in this part, so that the rest decides
      · rw [hnone x hx hsx hlx, Option.none_or]
        rw [ih (fun x' hx' => hsets x' (List.mem_cons_of_mem _ hx')) (fun x' hx' => hlacks x' (List.mem_cons_of_mem _ hx'))
          (fun x' hx' => hnone x' (List.mem_cons_of_mem _ hx'))]
        constructor
        · rintro ⟨before, x', after, rfl, hsets', hbefore⟩
          exact ⟨x :: before, x', after, rfl, hsets', List.forall_mem_cons.2 ⟨hlx, hbefore⟩⟩
        · rintro ⟨before, x', after, heq, hsets', hbefore⟩
          rcases List.cons_eq_append_iff.1 heq with ⟨rfl, heq⟩ | ⟨before', rfl, heq⟩
          · obtain ⟨rfl, -⟩ := List.cons.inj heq
            exact absurd hsets' hsx
          · exact ⟨before', x', after, (List.cons.inj heq).2, hsets', (List.forall_mem_cons.1 hbefore).2⟩

/-- A request is found for a triple just if the triple names it. -/
theorem isRequest_iff_names {n : Identity} {v : Version} {name : String} {e : Identity × VersionRequest} :
    ResolutionMap.isRequest n v name e = true ↔ Triple.Names ⟨n, v.canonical, name⟩ e := by
  unfold ResolutionMap.isRequest Triple.Names
  rw [Bool.and_eq_true, Bool.and_eq_true, Version.beq_iff, and_assoc, beq_iff_eq (a := e.2.request.name)]

namespace Setting

variable {s : Setting σ} {visible : Filter}

/-- What the task of a scanned dependency gives from a ledger. -/
def gives (s : Setting σ) (visible : Filter) (x : Option Dependency × Ledger (Bench σ)) : Contribution :=
  TaskEnd.requests (x.1, ((s.task visible x.1).run x.2).1)

/-- The map is that of what the tasks give, and all of them give something. -/
theorem resolutionMap_eq_ofList {l l' : Ledger (Bench σ)} {m : ResolutionMap}
    (h : (s.resolutionMap visible).run l = (.ok m, l')) :
    m = .ofList ((s.starts visible l).flatMap (s.gives visible)) ∧
      ∀ x ∈ s.starts visible l, ((s.task visible x.1).run x.2).1 = .ok (s.gives visible x) := by
  rcases resolutionMap_ok h with ⟨ends, hruns, hends, hm⟩
  have hstarts : ends = (s.starts visible l).map fun x => (x.1, ((s.task visible x.1).run x.2).1) := by
    refine List.map_injective_iff.2 (fun _ _ => Except.ok.inj) (hruns.map_ok.trans ?_)
    rw [List.map_map]
    rfl
  rw [hm, hstarts, List.flatMap_map]
  refine ⟨rfl, fun x hx => ?_⟩
  exact hends (x.1, _) (by rw [hstarts]; exact List.mem_map_of_mem hx)

/-- A task that gives something is that of a dependency. -/
theorem exists_contribution {x : Option Dependency × Ledger (Bench σ)} {es : Contribution}
    (h : ((s.task visible x.1).run x.2).1 = .ok es) :
    ∃ d k, x = (some d, k) ∧ ((s.contribution visible d).run k).1 = .ok es := by
  rcases x with ⟨_ | d, k⟩
  · cases h
  · exact ⟨d, k, rfl, h⟩

/-- What a task gives for a triple: first of all a request with the flag if its dependency gives the triple directly,
and one without it if only the dependency's own graph does. -/
theorem find?_contribution {d : Dependency} {k : Ledger (Bench σ)} {es : Contribution}
    (h : ((s.contribution visible d).run k).1 = .ok es) (n : Identity) (v : Version) (name : String) :
    (s.GivesDirectly d ⟨n, v.canonical, name⟩ →
      ∃ e, es.find? (ResolutionMap.isRequest n v name) = some e ∧ e.2.request.direct = true) ∧
    (¬ s.GivesDirectly d ⟨n, v.canonical, name⟩ → s.GivesTransitively visible d k ⟨n, v.canonical, name⟩ →
      ∃ e, es.find? (ResolutionMap.isRequest n v name) = some e ∧ e.2.request.direct = false) ∧
    (¬ s.GivesDirectly d ⟨n, v.canonical, name⟩ → ¬ s.GivesTransitively visible d k ⟨n, v.canonical, name⟩ →
      es.find? (ResolutionMap.isRequest n v name) = none) := by
  rcases contribution_parts h with ⟨direct, m, transitive, hdirect, rfl, hpart, htransitive⟩
  have hflag : ∀ e ∈ direct, e.2.request.direct = true := by
    have hensures := (directPart_flag visible d k trivial).2 direct (by rw [hdirect])
    exact fun e he => (hensures e he).1
  have hnoflag : ∀ e ∈ transitive, e.2.request.direct = false := by
    rcases hpart with rfl | ⟨m, k', hrun⟩
    · simp
    · exact (transitivePart_flag d m _ trivial).2 transitive (by rw [hrun])
  rw [← directPart_ok hdirect, ← htransitive, List.find?_append]
  simp only [← isRequest_iff_names, ← List.any_eq_true, ← List.isSome_find?]
  -- the direct part stands first, so that what is found there has the flag
  cases hfirst : direct.find? (ResolutionMap.isRequest n v name) with
  | some e => simp [hflag e (List.mem_of_find?_eq_some hfirst)]
  | none =>
    cases hsecond : transitive.find? (ResolutionMap.isRequest n v name) with
    | some e => simp [hnoflag e (List.mem_of_find?_eq_some hsecond)]
    | none => simp

/-- A request with the flag comes from the project itself. -/
theorem requester_of_direct {d : Dependency} {k : Ledger (Bench σ)} {es : Contribution}
    (h : ((s.contribution visible d).run k).1 = .ok es) {e : Identity × VersionRequest} (he : e ∈ es)
    (hflag : e.2.request.direct = true) : e.2.request.requester = .ofProject s.project := by
  rcases contribution_parts h with ⟨direct, m, transitive, hdirect, rfl, hpart, -⟩
  rcases List.mem_append.1 he with he | he
  · exact ((directPart_flag visible d k trivial).2 direct (by rw [hdirect]) e he).2
  · rcases hpart with rfl | ⟨n, k', hrun⟩
    · cases he
    · have hnoflag := (transitivePart_flag d n _ trivial).2 transitive (by rw [hrun]) e he
      rw [hflag] at hnoflag
      cases hnoflag

/-- The triple by which the project itself requests a node directly below it. -/
def ownTriple (s : Setting σ) (n : Identity) (node : Node) : Triple :=
  ⟨n, Version.canonical ⟨node.artifact.version⟩, (Identity.ofProject s.project).minimalName⟩

/-- The artifact has a node directly below the project, and some scanned dependency has its identity. -/
def Claimed (s : Setting σ) (n : Identity) : Prop :=
  (∃ d, some d ∈ s.scanned ∧ (Identity.ofArtifact d.artifact == n) = true) ∧ (s.root.direct.find? n).isSome

/-- The artifact is claimed, but before every scanned dependency of its identity there is another one that passes it
on in the version directly below the project, under the project's own name. -/
def Overtaken (s : Setting σ) (visible : Filter) (l : Ledger (Bench σ)) (n : Identity) : Prop :=
  (∃ d, some d ∈ s.scanned ∧ (Identity.ofArtifact d.artifact == n) = true) ∧
    ∃ node, s.root.direct.find? n = some node ∧
      ∀ before d k after, s.starts visible l = before ++ (some d, k) :: after →
        (Identity.ofArtifact d.artifact == n) = true →
          ∃ d' k', (some d', k') ∈ before ∧ s.GivesTransitively visible d' k' (s.ownTriple n node)

/-- The artifact is directly below the project, and some scanned dependency of its identity has its turn before any
other passes the artifact on in that version, under the project's own name. -/
def Announced (s : Setting σ) (visible : Filter) (l : Ledger (Bench σ)) (n : Identity) : Prop :=
  ∃ node, s.root.direct.find? n = some node ∧ ∃ before d k after,
    s.starts visible l = before ++ (some d, k) :: after ∧ (Identity.ofArtifact d.artifact == n) = true ∧
      ∀ d' k', (some d', k') ∈ before → ¬ s.GivesTransitively visible d' k' (s.ownTriple n node)

/-- An artifact is announced just if it is claimed and not overtaken. -/
theorem announced_iff {l : Ledger (Bench σ)} {n : Identity} :
    s.Announced visible l n ↔ s.Claimed n ∧ ¬ s.Overtaken visible l n := by
  constructor
  · rintro ⟨node, hnode, before, d, k, after, hstarts, hid, hbefore⟩
    have hscanned : some d ∈ s.scanned := by
      rw [← Step.map_fst_starts (s.attempt visible) s.scanned l]
      exact List.mem_map.2 ⟨(some d, k), by rw [← starts, hstarts]; simp, rfl⟩
    refine ⟨⟨⟨d, hscanned, hid⟩, by rw [hnode]; rfl⟩, ?_⟩
    -- the project's graph has one node for the artifact, about which both speak
    rintro ⟨-, node', hnode', hovertaken⟩
    obtain rfl : node = node' := Option.some.inj (hnode.symm.trans hnode')
    rcases hovertaken before d k after hstarts hid with ⟨d', k', hmem, hgives⟩
    exact hbefore d' k' hmem hgives
  · rintro ⟨⟨hscanned, hnode⟩, hovertaken⟩
    rcases Option.isSome_iff_exists.1 hnode with ⟨node, hnode⟩
    by_contra hnot
    refine hovertaken ⟨hscanned, node, hnode, ?_⟩
    intro before d k after hstarts hid
    by_contra hnone
    refine hnot ⟨node, hnode, before, d, k, after, hstarts, hid, ?_⟩
    exact fun d' k' hmem hgives => hnone ⟨d', k', hmem, hgives⟩

/-! ## The flag of a group -/

section Groups

variable {l l' : Ledger (Bench σ)} {m : ResolutionMap} (h : (s.resolutionMap visible).run l = (.ok m, l'))

include h

/-- A group is direct just if some scanned dependency gives its version directly before any other passes that version
on under the project's own name. -/
theorem isDirect_iff {n : Identity} {groups : List RequestGroup} (hn : (n, groups) ∈ m.entries) {g : RequestGroup}
    (hg : g ∈ groups) :
    g.isDirect = true ↔ ∃ before d k after, s.starts visible l = before ++ (some d, k) :: after ∧
      s.GivesDirectly d ⟨n, g.expected.canonical, (Identity.ofProject s.project).minimalName⟩ ∧
      ∀ d' k', (some d', k') ∈ before →
        ¬ s.GivesTransitively visible d' k' ⟨n, g.expected.canonical, (Identity.ofProject s.project).minimalName⟩ := by
  rcases resolutionMap_eq_ofList h with ⟨rfl, hgives⟩
  -- the flag is that of the first request of the project's name
  have hfirst : g.isDirect = true ↔ ∃ e, ((s.starts visible l).flatMap (s.gives visible)).find?
      (ResolutionMap.isRequest n g.expected (Identity.ofProject s.project).minimalName) = some e ∧
        e.2.request.direct = true := by
    unfold RequestGroup.isDirect
    rw [List.any_eq_true]
    constructor
    · rintro ⟨r, hr, hflag⟩
      rcases (ResolutionMap.mem_requests_iff hn hg).1 hr with ⟨e, he, rfl⟩
      rcases List.mem_flatMap.1 (List.mem_of_find?_eq_some he) with ⟨x, hx, hmem⟩
      rcases exists_contribution (hgives x hx) with ⟨d, k, -, hcontribution⟩
      have hname : e.2.request.name = (Identity.ofProject s.project).minimalName :=
        congrArg Identity.minimalName (requester_of_direct hcontribution hmem hflag)
      rw [hname] at he
      exact ⟨e, he, hflag⟩
    · rintro ⟨e, he, hflag⟩
      have hname : e.2.request.name = (Identity.ofProject s.project).minimalName :=
        (isRequest_iff_names.1 (List.find?_some he)).2.2
      refine ⟨e.2.request, (ResolutionMap.mem_requests_iff hn hg).2 ⟨e, ?_, rfl⟩, hflag⟩
      rw [hname]
      exact he
  let t : Triple := ⟨n, g.expected.canonical, (Identity.ofProject s.project).minimalName⟩
  have hfind := fun x hx => exists_contribution (hgives x hx)
  rw [hfirst, find?_flatMap_iff (S := fun x => ∃ d, x.1 = some d ∧ s.GivesDirectly d t)
    (L := fun x => ∃ d, x.1 = some d ∧ s.GivesTransitively visible d x.2 t)]
  · constructor
    · rintro ⟨before, ⟨_, k⟩, after, hstarts, ⟨d, rfl, hdirect⟩, hbefore⟩
      exact ⟨before, d, k, after, hstarts, hdirect, fun d' k' hmem hgives => hbefore _ hmem ⟨d', rfl, hgives⟩⟩
    · rintro ⟨before, d, k, after, hstarts, hdirect, hbefore⟩
      refine ⟨before, (some d, k), after, hstarts, ⟨d, rfl, hdirect⟩, ?_⟩
      rintro ⟨_, k'⟩ hmem ⟨d', rfl, hgives⟩
      exact hbefore d' k' hmem hgives
  · rintro x hx ⟨_, hd, hdirect⟩
    rcases hfind x hx with ⟨d, k, rfl, hcontribution⟩
    obtain rfl := Option.some.inj hd
    exact (find?_contribution hcontribution n g.expected _).1 hdirect
  · rintro x hx hnot ⟨_, hd, htransitive⟩
    rcases hfind x hx with ⟨d, k, rfl, hcontribution⟩
    obtain rfl := Option.some.inj hd
    exact (find?_contribution hcontribution n g.expected _).2.1 (fun hdirect => hnot ⟨d, rfl, hdirect⟩) htransitive
  · rintro x hx hnot hnone
    rcases hfind x hx with ⟨d, k, rfl, hcontribution⟩
    exact (find?_contribution hcontribution n g.expected _).2.2 (fun hdirect => hnot ⟨d, rfl, hdirect⟩)
      fun htransitive => hnone ⟨d, rfl, htransitive⟩

/-- Some group of an artifact is direct just if the artifact is announced. -/
theorem exists_isDirect_iff {n : Identity} {groups : List RequestGroup} (hn : (n, groups) ∈ m.entries) :
    (∃ g ∈ groups, g.isDirect = true) ↔ s.Announced visible l n := by
  constructor
  · rintro ⟨g, hg, hdirect⟩
    rcases (isDirect_iff h hn hg).1 hdirect with ⟨before, d, k, after, hstarts, ⟨hid, node, hnode, hver, -⟩, hbefore⟩
    refine ⟨node, hnode, before, d, k, after, hstarts, hid, ?_⟩
    unfold ownTriple
    dsimp only at hver
    rw [hver]
    exact hbefore
  · rintro ⟨node, hnode, before, d, k, after, hstarts, hid, hbefore⟩
    have hgives : s.GivesDirectly d (s.ownTriple n node) := ⟨hid, node, hnode, rfl, rfl⟩
    -- what the project requests has a group
    obtain ⟨g, hg, hver⟩ : ∃ g ∈ groups, g.expected.canonical = Version.canonical ⟨node.artifact.version⟩ := by
      rcases resolutionMap_eq_ofList h with ⟨rfl, hall⟩
      have hmem : (some d, k) ∈ s.starts visible l := by
        rw [hstarts]
        simp
      rcases exists_contribution (hall _ hmem) with ⟨_, _, heq, hcontribution⟩
      cases heq
      rcases (contribution_ok hcontribution _).2 (.inl hgives) with ⟨e, he, hart, hexpected, -⟩
      rcases ResolutionMap.exists_group_of_mem hn (List.mem_flatMap.2 ⟨_, hmem, he⟩) hart with ⟨g, hg, hv⟩
      exact ⟨g, hg, (Version.beq_iff.1 hv).trans hexpected⟩
    refine ⟨g, hg, (isDirect_iff h hn hg).2 ⟨before, d, k, after, hstarts, ?_⟩⟩
    rw [hver]
    exact ⟨hgives, hbefore⟩

end Groups

end Setting

/-! ## The flags of an analysis -/

/-- The flag of an artifact says too much of none: if one of its groups is direct, the artifact is claimed. It says
so of every claimed artifact but those that are overtaken. -/
theorem isDirect_iff_claimed_iff {resolver : Resolver σ} {registry : Registry} {c : Configuration}
    {reactor : List Project} {project : Project} {l l' : Ledger σ} {a : Analysis}
    (hrun : (analyze resolver registry c reactor project).run l = (.ok (some a), l')) :
    a.project = project ∧ ∃ assignment visible m,
      Assignment.make registry c.rules c.defaultStrategy = .ok assignment ∧
      Filter.visible c.scope = .ok visible ∧
      (resolver.mapProject (Setting.policy c reactor) project visible).run l = (.ok a.root, m) ∧
      ∀ n groups, (n, groups) ∈ a.requests.entries →
        ((∃ g ∈ groups, g.isDirect = true) → (a.setting resolver c reactor).Claimed n) ∧
          (((∃ g ∈ groups, g.isDirect = true) ↔ (a.setting resolver c reactor).Claimed n) ↔
            ¬ (a.setting resolver c reactor).Overtaken visible (m.bench assignment) n) := by
  rcases analyze_ok hrun with ⟨hproject, assignment, visible, m, finish, hmake, hvisible, hroot, htasks, -⟩
  refine ⟨hproject, assignment, visible, m, hmake, hvisible, hroot, ?_⟩
  intro n groups hn
  rw [Setting.exists_isDirect_iff htasks hn, Setting.announced_iff]
  refine ⟨And.left, ?_⟩
  constructor
  -- an overtaken artifact is claimed, but the flag is not set for it
  · intro hright hovertaken
    have hclaimed : (a.setting resolver c reactor).Claimed n := by
      rcases hovertaken with ⟨hscanned, node, hnode, -⟩
      exact ⟨hscanned, by rw [hnode]; rfl⟩
    exact (hright.2 hclaimed).2 hovertaken
  · intro hnot
    exact ⟨And.left, fun hclaimed => ⟨hclaimed, hnot⟩⟩

/-- No artifact of the sample is overtaken. -/
theorem isDirect_iff_claimed_iff_sample : ∃ a l', Sample.audit = (.ok (some a), l') ∧
    a.project = Sample.project ∧ ∃ assignment visible m,
      Assignment.make (.ofList []) Sample.configuration.rules Sample.configuration.defaultStrategy = .ok assignment ∧
      Filter.visible Sample.configuration.scope = .ok visible ∧
      ((Resolver.ofTable Sample.table).mapProject (Setting.policy Sample.configuration []) Sample.project visible).run
        ⟨(), []⟩ = (.ok a.root, m) ∧
      ∀ n groups, (n, groups) ∈ a.requests.entries →
        ((∃ g ∈ groups, g.isDirect = true) → (Sample.setting a).Claimed n) ∧
          (((∃ g ∈ groups, g.isDirect = true) ↔ (Sample.setting a).Claimed n) ↔
            ¬ (Sample.setting a).Overtaken visible (m.bench assignment) n) := by
  obtain ⟨a, l', hrun, -⟩ := Sample.exists_of_lists Sample.lists_utility
  exact ⟨a, l', hrun, isDirect_iff_claimed_iff hrun⟩

/-! ## A project that uses its own tests -/

namespace OwnTests

def tests : Artifact :=
  { group := "com.example", name := "app", version := "1", kind := "test-jar" }

def library : Artifact :=
  { group := "g", name := "lib", version := "1.0" }

def nodeOf (a : Artifact) : Node :=
  { artifact := a, dependency := some { artifact := a } }

/-- The project declares the archive of its own tests, and after it the library that the tests use too. -/
def project : Project :=
  { group := "com.example", name := "app", version := "1"
    dependencies := [{ artifact := tests, scope := "test" }, { artifact := library }] }

def table : Resolver.Table where
  projects := [(project.text, { nodes := [nodeOf tests, nodeOf library], root := [0, 1] })]
  nodes := [("com.example:app:1", some { nodes := [nodeOf library], root := [0] })]

def audit : Except Failure (Option Analysis) × Ledger Unit :=
  (analyze (.ofTable table) (.ofList []) {} [] project).run ⟨(), []⟩

/-- The library is directly below the project, which declares it, but none of its groups is direct. -/
theorem not_isDirect_iff_claimed : ∃ a l', audit = (.ok (some a), l') ∧
    ∃ n groups, (n, groups) ∈ a.requests.entries ∧
      ¬ ((∃ g ∈ groups, g.isDirect = true) ↔ (a.setting (Resolver.ofTable (σ := Unit) table) {} []).Claimed n) := by
  -- what the analysis shows of the library
  have hshown : (audit.1.toOption.any fun a => a.any fun a =>
      a.requests.entries.any (fun e => e.1 = .ofArtifact library && !e.2.any (·.isDirect)) &&
        (a.root.direct.find? (.ofArtifact library)).isSome) = true := by
    decide +kernel
  rcases hrun : audit with ⟨_ | _ | a, l'⟩
  · rw [hrun] at hshown
    cases hshown
  · rw [hrun] at hshown
    cases hshown
  · rw [hrun] at hshown
    obtain ⟨hentry, hdirect⟩ := (Bool.and_eq_true _ _).mp hshown
    rcases List.any_eq_true.1 hentry with ⟨⟨n, groups⟩, hmem, hn⟩
    rw [Bool.and_eq_true, decide_eq_true_eq, Bool.not_eq_true', List.any_eq_false] at hn
    rcases hn with ⟨rfl, hnone⟩
    refine ⟨a, l', rfl, _, groups, hmem, fun hiff => ?_⟩
    have hproject : a.project = project := (analyze_ok hrun).1
    have hclaimed : (a.setting (Resolver.ofTable (σ := Unit) table) {} []).Claimed (.ofArtifact library) := by
      refine ⟨⟨{ artifact := library }, ?_, BEq.rfl⟩, hdirect⟩
      show some _ ∈ a.project.dependencies.map some
      rw [hproject]
      exact List.mem_map_of_mem (by simp [project])
    rcases hiff.2 hclaimed with ⟨g, hg, hflag⟩
    exact hnone g hg hflag

end OwnTests

end VersionAudit
