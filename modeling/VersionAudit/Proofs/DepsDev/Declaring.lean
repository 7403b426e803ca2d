import VersionAudit.Proofs.DepsDev.Trail

/-!
# Declaring a dependency

What becomes of the draft of a project when one more of its dependencies is declared.

1. `Draft.place`: the draft with a dependency below the root. `Draft.After`: all that can become of a draft.
2. `ensures_declare`: nothing else does. Every invariant of drafts is derived from this, and one of all declarations
   by `ensures_resolveProject_of`.
3. `admits_congr`: no filter looks at versions, so a dependency is admitted in its chosen version just if it was before.
-/

namespace VersionAudit

/-- Filters look at scope, group and name only. -/
theorem Filter.admits_congr {m n : Node} (hscope : m.scope? = n.scope?) (hgroup : m.artifact.group = n.artifact.group)
    (hname : m.artifact.name = n.artifact.name) (f : Filter) : f.admits m = f.admits n := by
  -- filters are nested in lists of filters, so that both are gone through together
  induction f using Filter.rec (motive_2 := fun fs => Filter.admitsAll fs m = Filter.admitsAll fs n) with
  | scopes visible =>
    unfold Filter.admits Filter.inScopes
    rw [hscope]
  | excluding exclusions =>
    unfold Filter.admits
    rw [DepsDev.isExcluded_congr hgroup hname]
  | all parts ih =>
    unfold Filter.admits
    exact ih
  | nil => rfl
  | cons f fs ihf ihfs =>
    unfold Filter.admitsAll
    rw [ihf, ihfs]

namespace DepsDev

open Step

/-- What tells an artifact apart from other declared ones. -/
def declaredKey (a : Artifact) : DeclaredKey :=
  (a.group, a.name, a.kind, a.classifier)

/-- Artifacts that are declared under one key are of one identity. -/
theorem ofArtifact_congr {a b : Artifact} (h : declaredKey a = declaredKey b) :
    Identity.ofArtifact a = Identity.ofArtifact b := by
  obtain ⟨hgroup, hname, hkind, hclassifier⟩ :
      a.group = b.group ∧ a.name = b.name ∧ a.kind = b.kind ∧ a.classifier = b.classifier := by
    simpa [declaredKey] using h
  unfold Identity.ofArtifact
  rw [hgroup, hname, hkind, hclassifier]

theorem admits_withChildren (f : Filter) (more : List Nat) (n : Node) : f.admits (withChildren more n) = f.admits n :=
  f.admits_congr (m := withChildren more n) (n := n) rfl rfl rfl

/-- A dependency is admitted in any version or in none. -/
theorem admits_inVersion (f : Filter) (d : Dependency) (v : String) :
    f.admits (declaredNode (inVersion d v)) = f.admits (declaredNode d) :=
  f.admits_congr (m := declaredNode (inVersion d v)) (n := declaredNode d) rfl rfl rfl

/-! ## Drafts -/

/-- The draft with a dependency, in its chosen version, below the root. Its graph waits to be merged; without one it
counts as unresolved. -/
def Draft.place (p : Project) (draft : Draft) (d : Dependency) : Option PackageGraph → Draft
  | none =>
    { merge := { draft.merge with
        nodes := Merge.grow draft.merge.nodes 0 (declaredNode d)
        seen := (d.artifact.group, d.artifact.name) :: draft.merge.seen }
      declared := declaredKey d.artifact :: draft.declared
      unresolved := draft.unresolved ++ [d]
      cause := some ⟨"Could not resolve " ++ d.artifact.coordinates, some "default"⟩ }
  | some graph =>
    { merge :=
        { nodes := Merge.grow draft.merge.nodes 0 (declaredNode d)
          resolved := draft.merge.resolved ++ [d]
          seen := (d.artifact.group, d.artifact.name) :: draft.merge.seen
          queue := draft.merge.queue ++ (startAt p draft.merge.nodes.size d (some graph)).toList }
      declared := declaredKey d.artifact :: draft.declared
      unresolved := draft.unresolved
      cause := draft.cause }

/-- What becomes of a draft when a dependency is declared. Of the version chosen for it, or of none, `V` is known. -/
inductive Draft.After (p : Project) (f : Filter) (V : Option String → Prop) (draft : Draft) (d : Dependency) :
    Draft → Prop
  /-- It was declared before. -/
  | again (known : declaredKey d.artifact ∈ draft.declared) : After p f V draft d draft
  /-- No version could be chosen. -/
  | unversioned (message : String) (new : declaredKey d.artifact ∉ draft.declared) (chosen : V none) :
    After p f V draft d (draft.lack d message)
  | hidden (version : String) (chosen : V (some version))
    (hidden : f.admits (declaredNode (inVersion d version)) = false) : After p f V draft d draft
  | placed (version : String) (graph? : Option PackageGraph) (chosen : V (some version))
    (admitted : f.admits (declaredNode (inVersion d version)) = true) :
    After p f V draft d (draft.place p (inVersion d version) graph?)

section Declaring

variable {σ : Type} {t : Transport σ} {timeout : Int} {I : Memory σ → Prop} {p : Project} {f : Filter}
  (hfetch : ∀ a, Ensures I (fetchGraph t timeout a) fun _ => True)

include hfetch

/-- Whatever becomes of a dependency is one of the cases, with what is known of the version chosen for it. -/
theorem ensures_declare {V : Option String → Prop} {d : Dependency} (hchoose : Ensures I (chooseVersion t timeout d) V)
    (draft : Draft) : Ensures I (declare t timeout p f draft d) (draft.After p f V d) := by
  unfold declare
  dsimp only
  split
  · rename_i hknown
    exact .pure (.again (List.contains_iff_mem.1 hknown))
  · rename_i hnew
    -- a version is chosen first, and only then is the filter asked
    refine .bind hchoose fun version? hchosen => ?_
    split
    · exact .pure (.unversioned _ (fun hknown => hnew (List.contains_iff_mem.2 hknown)) hchosen)
    · rename_i version
      split
      · rename_i hhidden
        rw [Bool.not_eq_true'] at hhidden
        exact .pure (.hidden version hchosen hhidden)
      · rename_i hadmitted
        rw [Bool.not_eq_true, Bool.not_eq_false'] at hadmitted
        have hplaced : ∀ graph?, draft.After p f V d (draft.place p (inVersion d version) graph?) :=
          fun graph? => .placed version graph? hchosen hadmitted
        refine .bind (hfetch _) fun graph? _ => ?_
        split
        · exact .pure (hplaced none)
        · rename_i graph
          have hgraph := hplaced (some graph)
          split
          · rename_i hself
            simp only [Draft.place, startAt, Option.bind_some, hself, Option.map_none, Option.toList_none,
              List.append_nil] at hgraph
            exact .pure hgraph
          · rename_i self hself
            simp only [Draft.place, startAt, Option.bind_some, hself] at hgraph
            exact .pure hgraph

/-- What one declaration keeps, told of the dependencies declared before, all of them keep. The graph of the project is
what a merge makes of their draft. -/
theorem ensures_resolveProject_of {V : Dependency → Option String → Prop} {S : List Dependency → Draft → Prop}
    (hchoose : ∀ d ∈ p.dependencies, Ensures I (chooseVersion t timeout d) (V d))
    (hstart : S [] (emptyDraft p))
    (hafter : ∀ done, ∀ d ∈ p.dependencies, ∀ draft draft', S done draft → draft.After p f (V d) d draft' →
      S (done ++ [d]) draft') :
    Ensures I (resolveProject t timeout p f) fun o => ∃ draft m, S p.dependencies draft ∧ draft.merge.finish = .ok m ∧
      o = { graph := ⟨m.nodes, 0⟩, resolved := m.resolved, unresolved := draft.unresolved, cause := draft.cause } := by
  unfold resolveProject
  -- the loop keeps what `S` says of the dependencies that it is through with
  refine .bind (.foldlM_upTo (S := S) ?_ hstart) fun draft hdraft => ?_
  · intro done d hd draft hdraft
    exact (ensures_declare hfetch (hchoose d hd) draft).mono fun draft' h => hafter done d hd draft draft' hdraft h
  · refine .bind (.ofExcept (Q := fun m => draft.merge.finish = .ok m) fun m hm => hm) fun m hm => ?_
    exact .pure ⟨draft, m, hdraft, hm, rfl⟩

end Declaring

end DepsDev

end VersionAudit
