import VersionAudit.Proofs.DepsDev.Declaring
import VersionAudit.Proofs.DepsDev.Service
import VersionAudit.Proofs.Graph.Outcome
import VersionAudit.Proofs.Version.Specification

/-!
# Directly below a project

Directly below a project stand its declared dependencies, each in the version that was chosen for it. A merge adds
nothing there, for all that it looks at stands deeper.

1. `Fits`: a version is among those that the specification of a dependency admits, whenever they are asked for.
   `ensures_chooseVersion`: the version chosen for a dependency does.
2. `Topped`: what stands below the first node of a table. `Rooted`: what a merge adds stands elsewhere.
3. `chosen_of_child`, `chosen_of_direct`: what stands, and what is found, directly below a project.
-/

namespace VersionAudit.DepsDev

open Merge Step

variable {σ : Type} {t : Transport σ} {timeout : Int}

/-! ## Chosen versions -/

/-- Whenever the versions are asked for that the specification of a dependency admits, the given one is among them. -/
def Fits (t : Transport σ) (timeout : Int) (d : Dependency) (v : String) : Prop :=
  ∀ l : Ledger (Memory σ), l.state.Faithful t timeout →
    ∃ vs, ((versions t timeout d.artifact).run l).1 = .ok vs ∧ (⟨v⟩ : Version) ∈ vs

/-- The versions that a plain specification admits are known without a question. -/
theorem versions_of_plain {a : Artifact} (h : VersionRange.Plain a.version) :
    versions t timeout a = pure [⟨Text.trim a.version⟩] := by
  unfold versions
  rw [VersionRange.read_of_plain h]
  rfl

/-- The version chosen for a dependency fits its specification, if that has no blanks around it. -/
theorem ensures_chooseVersion (ht : t.Steady) {d : Dependency}
    (htrim : Text.trim d.artifact.version = d.artifact.version) :
    Ensures (Memory.Faithful t timeout) (chooseVersion t timeout d) fun version? =>
      ∀ v, version? = some v → Fits t timeout d v := by
  intro l hl
  refine ⟨(related_chooseVersion ht d l l ⟨hl, hl⟩).1.1, ?_⟩
  rintro version? hrun v rfl
  rcases hchosen : (chooseVersion t timeout d).run l with ⟨r, l'⟩
  rw [hchosen] at hrun
  obtain rfl : r = .ok (some v) := hrun
  -- a specification that cannot be read chooses nothing
  unfold chooseVersion at hchosen
  split at hchosen
  · cases hchosen
  · split at hchosen
    · obtain ⟨_, _, -, hnone⟩ := run_bind_ok_iff.1 hchosen
      cases hnone
    · rename_i range hread
      split at hchosen
      · -- a plain specification admits itself
        rename_i hplain
        obtain rfl := Option.some.inj (Except.ok.inj (Prod.mk.inj hchosen).1)
        have hsome : range.recommended.isSome = true := by
          unfold VersionRange.isRange at hplain
          simpa using hplain
        obtain ⟨w, hw⟩ := Option.isSome_iff_exists.1 hsome
        intro k hk
        rw [versions_of_plain (VersionRange.plain_of_recommended hread hw), htrim]
        exact ⟨_, rfl, List.mem_singleton.2 rfl⟩
      · -- a range admits the same versions again
        obtain ⟨vs, m, hvs, hlast⟩ := run_bind_ok_iff.1 hchosen
        obtain ⟨w, hw, rfl⟩ := Option.map_eq_some_iff.1 (Except.ok.inj (Prod.mk.inj hlast).1)
        intro k hk
        have halike := (related_versions ht d.artifact k l ⟨hk, hl⟩).2.eq
        rw [hvs] at halike
        exact ⟨vs, halike, List.mem_of_getLast? hw⟩

/-! ## Below the first node -/

/-- The table has a first node, and everything below it is the node of a dependency with `P`. -/
structure Topped (P : Dependency → Prop) (nodes : Array Node) : Prop where
  size : 0 < nodes.size
  children : ∀ root, nodes[0]? = some root → ∀ c ∈ root.children,
    ∃ more d, nodes[c]? = some (withChildren more (declaredNode d)) ∧ P d

variable {P : Dependency → Prop}

/-- The node of a dependency with `P` may be put anywhere, and any node anywhere but below the first one. -/
theorem Topped.grow {nodes : Array Node} (h : Topped P nodes) {parent : Nat} {n : Node}
    (hn : parent = 0 → ∃ d, n = declaredNode d ∧ P d) : Topped P (grow nodes parent n) := by
  refine ⟨by rw [size_grow]; omega, ?_⟩
  have hzero : (0 : Nat) ≠ nodes.size := by have := h.size; omega
  intro root hroot c hc
  rw [getElem?_grow, if_neg hzero] at hroot
  obtain ⟨root', hroot', rfl⟩ := Option.map_eq_some_iff.1 hroot
  rw [getElem?_grow]
  -- a child of the first node is the new one, or it was there before
  by_cases hnew : c = nodes.size
  · rw [if_pos hnew]
    have hparent : parent = 0 := by
      by_contra hparent
      rw [if_neg hparent, withChildren_nil] at hc
      obtain ⟨more, d, hd, -⟩ := h.children root' hroot' c hc
      have hlt := (Array.getElem?_eq_some_iff.1 hd).1
      omega
    obtain ⟨d, rfl, hd⟩ := hn hparent
    exact ⟨[], d, by rw [withChildren_nil], hd⟩
  · rw [if_neg hnew]
    have hold : c ∈ root'.children := by
      unfold withChildren at hc
      rcases List.mem_append.1 hc with hc | hc
      · exact hc
      · split at hc
        · exact absurd (List.mem_singleton.1 hc) hnew
        · cases hc
    obtain ⟨more, d, hd, hP⟩ := h.children root' hroot' c hold
    rw [hd, Option.map_some, withChildren_append]
    exact ⟨_, d, rfl, hP⟩

/-- What is directly below the first node. -/
theorem Topped.exists_of_child {nodes : Array Node} (h : Topped P nodes) {c : Nat} {n : Node}
    (hc : (c, n) ∈ Graph.children ⟨nodes, 0⟩ 0) : ∃ more d, n = withChildren more (declaredNode d) ∧ P d := by
  obtain ⟨root, hroot, hmem, hn⟩ := Graph.mem_children.1 hc
  obtain ⟨more, d, hd, hP⟩ := h.children root hroot c hmem
  exact ⟨more, d, Option.some.inj (hn.symm.trans hd), hP⟩

/-- Everything below the root has `P`, and nothing waits to be looked at for the root itself. -/
structure Rooted (P : Dependency → Prop) (m : Merge) : Prop where
  topped : Topped P m.nodes
  queue : ∀ r ∈ m.queue, r.node ≠ 0

/-- What is looked at next is not the root, and neither is anything that waits behind it. -/
theorem Rooted.pop {m : Merge} {r : Pending} {rest : List Pending} (h : Rooted P m) (hqueue : m.queue = r :: rest) :
    r.node ≠ 0 ∧ Rooted P { m with queue := rest } := by
  have hmem : ∀ r' ∈ r :: rest, r'.node ≠ 0 := by
    rw [← hqueue]
    exact h.queue
  exact ⟨hmem r (List.mem_cons_self ..), h.topped, fun r' hr' => hmem r' (List.mem_cons_of_mem _ hr')⟩

/-- Taking a package keeps the root's children. -/
theorem Rooted.take {m m' : Merge} {r : Pending} {j : Int} (h : Rooted P m) (hr : r.node ≠ 0)
    (htake : take r m j = .ok m') : Rooted P m' := by
  rcases take_cases r m j with hnowhere | hsame | ⟨q, derived, htaken⟩
  · rw [hnowhere] at htake
    cases htake
  · rw [hsame] at htake
    obtain rfl := Except.ok.inj htake
    exact h
  · rw [htaken] at htake
    obtain rfl := Except.ok.inj htake
    -- the package is put below a node that is not the root, and waits at the end of the table
    refine ⟨h.topped.grow fun hzero => absurd hzero hr, ?_⟩
    intro r' hr'
    rcases List.mem_append.1 hr' with hr' | hr'
    · exact h.queue r' hr'
    · obtain rfl := List.mem_singleton.1 hr'
      have hsize := h.topped.size
      show m.nodes.size ≠ 0
      omega

theorem Rooted.run {fuel : Nat} {m m' : Merge} (h : Rooted P m) (hrun : run fuel m = .ok m') : Rooted P m' :=
  run_keeps (Q := fun r => r.node ≠ 0) Rooted.pop Rooted.take h hrun

/-! ## Declared dependencies -/

theorem rooted_emptyDraft (p : Project) : Rooted P (emptyDraft p).merge := by
  refine ⟨⟨Nat.one_pos, ?_⟩, by simp [emptyDraft]⟩
  rintro root hroot c hc
  obtain rfl : ({ artifact := p.artifact } : Node) = root := Option.some.inj hroot
  cases hc

/-- A dependency is declared below the root, if at all, in a version that is chosen for it. -/
theorem Rooted.after {p : Project} {f : Filter} {V : Option String → Prop} {d : Dependency} {draft draft' : Draft}
    (h : Rooted P draft.merge)
    (hP : ∀ v, V (some v) → f.admits (declaredNode (inVersion d v)) = true → P (inVersion d v))
    (hafter : draft.After p f V d draft') : Rooted P draft'.merge := by
  cases hafter with
  | again | unversioned | hidden => exact h
  | placed version graph? hchosen hadmitted =>
    have htopped : Topped P (Merge.grow draft.merge.nodes 0 (declaredNode (inVersion d version))) :=
      h.topped.grow fun _ => ⟨_, rfl, hP version hchosen hadmitted⟩
    cases graph? with
    | none => exact ⟨htopped, h.queue⟩
    | some graph =>
      refine ⟨htopped, fun r hr => ?_⟩
      rcases List.mem_append.1 hr with hr | hr
      · exact h.queue r hr
      · -- what waits is looked at for the new node, which is not the first one
        rw [Option.mem_toList] at hr
        obtain ⟨self, -, rfl⟩ := Option.map_eq_some_iff.1 hr
        have hsize := h.topped.size
        show draft.merge.nodes.size ≠ 0
        omega

/-- The dependency is a declared one, in a version chosen for it, that the filter admits. -/
def Chosen (p : Project) (f : Filter) (V : Dependency → String → Prop) (e : Dependency) : Prop :=
  ∃ d ∈ p.dependencies, ∃ v, V d v ∧ e = inVersion d v ∧ f.admits (declaredNode e) = true

section Direct

variable {I : Memory σ → Prop} {p : Project} {V : Dependency → String → Prop}
  (hchoose : ∀ d ∈ p.dependencies,
    Ensures I (chooseVersion t timeout d) fun version? => ∀ v, version? = some v → V d v)
  (hfetch : ∀ a, Ensures I (fetchGraph t timeout a) fun _ => True)

include hchoose hfetch

/-- Directly below a project stand chosen dependencies. -/
theorem ensures_resolveProject (f : Filter) :
    Ensures I (resolveProject t timeout p f) fun o => o.graph.root = 0 ∧ Topped (Chosen p f V) o.graph.nodes := by
  refine (ensures_resolveProject_of hfetch hchoose (S := fun _ draft => Rooted (Chosen p f V) draft.merge)
    (rooted_emptyDraft p) ?_).mono ?_
  · intro _ d hd draft draft' hrooted hafter
    exact hrooted.after (fun v hv hadmits => ⟨d, hd, v, hv v rfl, rfl, hadmits⟩) hafter
  · rintro o ⟨draft, m, hrooted, hfinish, rfl⟩
    exact ⟨rfl, (hrooted.run hfinish).topped⟩

/-- What stands directly below a project in its graph. -/
theorem chosen_of_child {f : Filter} {l l' : Ledger (Memory σ)} (hl : I l.state) {o : Outcome}
    (hrun : (resolveProject t timeout p f).run l = (.ok o, l')) {c : Nat} {n : Node}
    (hn : (c, n) ∈ o.graph.children o.graph.root) :
    f.admits n = true ∧ ∃ more e, n = withChildren more (declaredNode e) ∧ Chosen p f V e := by
  obtain ⟨hzero, htopped⟩ := (ensures_resolveProject hchoose hfetch f l hl).2 o (congrArg Prod.fst hrun)
  rw [hzero] at hn
  obtain ⟨more, e, rfl, hchosen⟩ := htopped.exists_of_child hn
  refine ⟨?_, more, e, rfl, hchosen⟩
  obtain ⟨d, -, v, -, rfl, hadmits⟩ := hchosen
  rw [admits_withChildren, hadmits]

/-- What is found directly below a project is a chosen dependency. -/
theorem chosen_of_direct {f : Filter} {policy : RecoveryPolicy} {l l' : Ledger (Memory σ)} (hl : I l.state)
    {root : DependencyMap} (hrun : ((resolver t timeout).mapProject policy p f).run l = (.ok root, l')) {k : Identity}
    {n : Node} (hn : root.direct.find? k = some n) :
    (n.identity == k) = true ∧ f.admits n = true ∧ ∃ more e, n = withChildren more (declaredNode e) ∧ Chosen p f V e := by
  obtain ⟨o, m, hresolve, hmap⟩ := run_bind_ok_iff.1 hrun
  obtain rfl := Outcome.eq_flatten_of_run_toMap hmap
  obtain ⟨hidentity, c, hchild, -⟩ := Graph.direct_flatten_sound hn
  exact ⟨hidentity, chosen_of_child hchoose hfetch hl hresolve hchild⟩

end Direct

/-- The artifact is a declared dependency in a version that fits. -/
def Declares (t : Transport σ) (timeout : Int) (p : Project) (a : Artifact) : Prop :=
  ∃ d ∈ p.dependencies, ∃ v, Fits t timeout d v ∧ a = d.artifact.withVersion v

/-- What is found directly below a project is a declared dependency in a version that fits. -/
theorem exists_declared (ht : t.Steady) {p : Project} {f : Filter} {policy : RecoveryPolicy}
    (htrim : ∀ d ∈ p.dependencies, Text.trim d.artifact.version = d.artifact.version) {l l' : Ledger (Memory σ)}
    (hl : l.state.Faithful t timeout) {root : DependencyMap}
    (hrun : ((resolver t timeout).mapProject policy p f).run l = (.ok root, l')) {k : Identity} {n : Node}
    (hn : root.direct.find? k = some n) :
    (n.identity == k) = true ∧ f.admits n = true ∧ Declares t timeout p n.artifact := by
  have hfetch : ∀ a : Artifact, Ensures (Memory.Faithful t timeout) (fetchGraph t timeout a) fun _ => True :=
    fun a l hl => ⟨(related_fetchGraph ht a l l ⟨hl, hl⟩).1.1, fun _ _ => trivial⟩
  obtain ⟨hidentity, hadmits, more, _, rfl, d, hd, v, hfits, rfl, -⟩ :=
    chosen_of_direct (fun d hd => ensures_chooseVersion ht (htrim d hd)) hfetch hl hrun hn
  exact ⟨hidentity, hadmits, d, hd, v, hfits, rfl⟩

end VersionAudit.DepsDev
