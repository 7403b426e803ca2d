import VersionAudit.Proofs.DepsDev.Declaring
import VersionAudit.Proofs.DepsDev.ProjectGraph
import VersionAudit.Proofs.Graph.Outcome

/-!
# No declared dependency is lost

A declared dependency leaves the resolution of a project in one of several ways: it was declared before, has no version,
is hidden by the filter, has no graph, or is merged. Only the filter may make it vanish.

1. `Accounts`: what is kept in one of these ways of the dependencies declared so far.
2. `direct_or_recovered`: what that means for the map of a project.
-/

namespace VersionAudit.DepsDev

open Step

/-- Of the dependencies declared so far those that the filter admits are told apart by what stands below the root, or
are unresolved. A repository of the old layout is not to blame for that. -/
structure Accounts (f : Filter) (done : List Dependency) (draft : Draft) : Prop where
  size : 0 < draft.merge.nodes.size
  declared : ∀ key ∈ draft.declared, ∃ c n, (c, n) ∈ Graph.children ⟨draft.merge.nodes, 0⟩ 0 ∧ f.admits n = true ∧
    declaredKey n.artifact = key
  done : ∀ d ∈ done, f.admits (declaredNode d) = true →
    declaredKey d.artifact ∈ draft.declared ∨ d ∈ draft.unresolved
  cause : ∀ cause, draft.cause = some cause → cause.contentType = some "default"

variable {f : Filter}

theorem accounts_emptyDraft (p : Project) : Accounts f [] (emptyDraft p) where
  size := Nat.one_pos
  declared _ hkey := by cases hkey
  done _ hd := by cases hd
  cause _ hcause := by cases hcause

/-- Whatever the dependencies before are told apart by stays below the root. -/
theorem Accounts.mem_declared {done : List Dependency} {draft : Draft} (h : Accounts f done draft) {nodes : Array Node}
    (hnodes : Extends draft.merge.nodes nodes) {key : DeclaredKey} (hkey : key ∈ draft.declared) :
    ∃ c n, (c, n) ∈ Graph.children ⟨nodes, 0⟩ 0 ∧ f.admits n = true ∧ declaredKey n.artifact = key := by
  obtain ⟨c, n, hn, hadmits, hkey⟩ := h.declared key hkey
  obtain ⟨more, hmore⟩ := hnodes.child hn
  refine ⟨c, _, hmore, ?_, hkey⟩
  rw [admits_withChildren, hadmits]

/-- One more dependency is declared. -/
theorem Accounts.after {p : Project} {V : Option String → Prop} {done : List Dependency} {d : Dependency}
    {draft draft' : Draft} (h : Accounts f done draft) (hafter : draft.After p f V d draft') :
    Accounts f (done ++ [d]) draft' := by
  cases hafter with
  | again hknown =>
    refine { h with done := ?_ }
    intro e he hadmits
    rcases List.mem_append.1 he with he | he
    · exact h.done e he hadmits
    · obtain rfl := List.mem_singleton.1 he
      exact .inl hknown
  | unversioned message _ _ =>
    refine { size := h.size, declared := h.declared, done := ?_, cause := ?_ }
    · intro e he hadmits
      rcases List.mem_append.1 he with he | he
      · exact (h.done e he hadmits).imp_right (List.mem_append_left _)
      · exact .inr (List.mem_append_right _ he)
    · rintro _ hcause
      obtain rfl := Option.some.inj hcause
      rfl
  | hidden version _ hhidden =>
    -- the filter does not look at the version, so it hides the dependency as it was declared
    refine { h with done := ?_ }
    intro e he hadmits
    rcases List.mem_append.1 he with he | he
    · exact h.done e he hadmits
    · obtain rfl := List.mem_singleton.1 he
      rw [admits_inVersion, hadmits] at hhidden
      cases hhidden
  | placed version graph? _ hadmitted =>
    have hdeclared : ∀ key ∈ declaredKey d.artifact :: draft.declared, ∃ c n,
        (c, n) ∈ Graph.children ⟨Merge.grow draft.merge.nodes 0 (declaredNode (inVersion d version)), 0⟩ 0 ∧
          f.admits n = true ∧ declaredKey n.artifact = key := by
      intro key hkey
      rcases List.mem_cons.1 hkey with rfl | hkey
      · exact ⟨_, _, mem_children_grow h.size _ _, hadmitted, rfl⟩
      · exact h.mem_declared (extends_grow _ _ _) hkey
    have hdone : ∀ e ∈ done ++ [d], f.admits (declaredNode e) = true →
        declaredKey e.artifact ∈ declaredKey d.artifact :: draft.declared ∨ e ∈ draft.unresolved := by
      intro e he hadmits
      rcases List.mem_append.1 he with he | he
      · exact (h.done e he hadmits).imp_left (List.mem_cons_of_mem _)
      · obtain rfl := List.mem_singleton.1 he
        exact .inl (List.mem_cons_self ..)
    have hsize : 0 < (Merge.grow draft.merge.nodes 0 (declaredNode (inVersion d version))).size := by
      rw [Merge.size_grow]
      omega
    cases graph? with
    | none =>
      refine ⟨hsize, hdeclared, fun e he hadmits => (hdone e he hadmits).imp_right (List.mem_append_left _), ?_⟩
      rintro _ hcause
      obtain rfl := Option.some.inj hcause
      rfl
    | some graph => exact ⟨hsize, hdeclared, hdone, h.cause⟩

variable {σ : Type}

/-- What the outcome for a project says of its declared dependencies. -/
theorem ensures_accounted (t : Transport σ) (timeout : Int) (p : Project) (f : Filter) :
    Ensures (fun _ => True) (resolveProject t timeout p f) fun o => o.recovered = [] ∧ o.isLegacyFailure = false ∧
      ∀ d ∈ p.dependencies, f.admits (declaredNode d) = true →
        (∃ c n, (c, n) ∈ o.graph.children o.graph.root ∧ f.admits n = true ∧ n.identity = .ofArtifact d.artifact) ∨
          d ∈ o.unresolved := by
  refine (ensures_resolveProject_of (V := fun _ _ => True) (S := Accounts f) ?_ ?_ (accounts_emptyDraft p) ?_).mono ?_
  · exact fun _ => .of_forall fun _ => trivial
  · exact fun _ _ => .of_forall fun _ => trivial
  · exact fun done d _ draft draft' h hafter => h.after hafter
  · rintro o ⟨draft, m, haccounts, hfinish, rfl⟩
    refine ⟨rfl, ?_, fun d hd hadmits => ?_⟩
    · unfold Outcome.isLegacyFailure
      dsimp only
      -- the cause of a failure is never a legacy repository here
      cases hcause : draft.cause with
      | none => rfl
      | some cause =>
        dsimp only
        rw [haccounts.cause cause hcause]
        rfl
    · refine (haccounts.done d hd hadmits).imp_left fun hkey => ?_
      obtain ⟨c, n, hn, hadmits, hkey⟩ := haccounts.mem_declared (Merge.extends_run hfinish) hkey
      exact ⟨c, n, hn, hadmits, ofArtifact_congr hkey⟩

/-- No declared dependency is lost. If there is a map of a project, each of its declared dependencies that the filter
admits stands directly below the project, or was unresolved and has been recovered, because a project of the build
produces it or because it comes from the system and may be missing there. -/
theorem direct_or_recovered (t : Transport σ) (timeout : Int) {policy : RecoveryPolicy} {p : Project} {f : Filter}
    {l l' : Ledger (Memory σ)} {root : DependencyMap}
    (hrun : ((resolver t timeout).mapProject policy p f).run l = (.ok root, l')) {d : Dependency}
    (hd : d ∈ p.dependencies) (hadmits : f.admits (declaredNode d) = true) :
    (root.direct.find? (.ofArtifact d.artifact)).isSome = true ∨
      ∃ o m, ((resolver t timeout).project p f).run l = (.ok o, m) ∧
        d ∈ (o.recoverAll policy.reactor policy.systemMustResolve).1.recovered ∧
        (policy.reactor.any (·.builds d.artifact) = true ∨ policy.systemMustResolve = false ∧ d.scope = "system") := by
  obtain ⟨o, m, hresolve, hmap⟩ := run_bind_ok_iff.1 hrun
  obtain ⟨hnone, hcause, haccounted⟩ := (ensures_accounted t timeout p f l trivial).2 o (congrArg Prod.fst hresolve)
  -- the dependency stands below the root, or it is unresolved and the map was made all the same
  rcases haccounted d hd hadmits with ⟨c, n, hn, hadmits, hidentity⟩ | hunresolved
  · left
    rw [Outcome.eq_flatten_of_run_toMap hmap, ← hidentity]
    exact Graph.direct_flatten_complete hn hadmits
  · right
    have hrecovered := Outcome.recovered_of_run_toMap hmap hcause hunresolved
    refine ⟨o, m, hresolve, hrecovered, ?_⟩
    rcases (o.recovers_recoverAll policy.reactor policy.systemMustResolve).sound d hrecovered with hbefore | hmay
    · rw [hnone] at hbefore
      cases hbefore
    · exact hmay

namespace Crossing

/-- The project declares `d`, and a module of its own build that the service does not know. -/
def modular : Project :=
  { project with dependencies := [requestFor "d" [], requestFor "module" []] }

def modularPolicy : RecoveryPolicy :=
  { reactor := [modular, { group := "g", name := "module", version := "1" }] }

/-- Both dependencies are accounted for. -/
theorem direct_or_recovered_modular : ∃ root l',
    ((resolver service 30).mapProject modularPolicy modular (.scopes Scope.all)).run ledger = (.ok root, l') ∧
      ∀ d ∈ modular.dependencies, (Filter.scopes Scope.all).admits (declaredNode d) = true ∧
        ((root.direct.find? (.ofArtifact d.artifact)).isSome = true ∨
          ∃ o m, ((resolver service 30).project modular (.scopes Scope.all)).run ledger = (.ok o, m) ∧
            d ∈ (o.recoverAll modularPolicy.reactor modularPolicy.systemMustResolve).1.recovered ∧
            (modularPolicy.reactor.any (·.builds d.artifact) = true ∨
              modularPolicy.systemMustResolve = false ∧ d.scope = "system")) := by
  have hadmits : ∀ d ∈ modular.dependencies, (Filter.scopes Scope.all).admits (declaredNode d) = true := by
    decide +kernel
  have hsome : ((((resolver service 30).mapProject modularPolicy modular (.scopes Scope.all)).run
      ledger).1.toOption).isSome = true := by
    decide +kernel
  obtain ⟨root, hroot⟩ := Option.isSome_iff_exists.1 hsome
  obtain ⟨l', hrun⟩ := Except.exists_of_toOption hroot
  exact ⟨root, l', hrun, fun d hd => ⟨hadmits d hd, direct_or_recovered service 30 hrun hd (hadmits d hd)⟩⟩

end Crossing

end VersionAudit.DepsDev
