import VersionAudit.Graph.Resolver
import VersionAudit.Proofs.Step

/-!
# Recovery

Recovery takes dependencies out of the very list in which it looks for them, one by one and by value, first those that
the build produces and then those that come from the system. What it does amounts to dividing that list in three.

1. `recover_filter`: taking out everything that satisfies a condition never fails, and leaves the rest in order.
2. `Divides`, `divides_unresolved`: what is built, what is ignored and what is lost, and how a map fails for the
   latter.
-/

namespace VersionAudit

namespace RecoveryPolicy

variable (policy : RecoveryPolicy) (d : Dependency)

/-- A project of the build has the coordinates of the dependency. -/
def IsBuilt : Prop :=
  (d.artifact.group, d.artifact.name, d.artifact.version) ∈ policy.reactor.map fun p => (p.group, p.name, p.version)

/-- The dependency is not built, comes from the system, and the system may lack something. -/
def IsIgnored : Prop :=
  ¬ policy.IsBuilt d ∧ d.scope = "system" ∧ policy.systemMustResolve = false

/-- Nothing recovers the dependency. -/
def IsLost : Prop :=
  ¬ policy.IsBuilt d ∧ ¬ policy.IsIgnored d

instance : Decidable (policy.IsBuilt d) :=
  inferInstanceAs (Decidable (_ ∈ _))

instance : Decidable (policy.IsIgnored d) :=
  inferInstanceAs (Decidable (_ ∧ _))

instance : Decidable (policy.IsLost d) :=
  inferInstanceAs (Decidable (_ ∧ _))

variable {policy d}

theorem isBuilt_iff : policy.IsBuilt d ↔ policy.reactor.any (·.builds d.artifact) = true := by
  unfold IsBuilt Project.builds
  simp only [List.mem_map, List.any_eq_true, Bool.and_eq_true, beq_iff_eq, Prod.mk.injEq, and_assoc]

end RecoveryPolicy

namespace Outcome

variable {σ : Type}

/-! ## One condition -/

/-- Of a list whose front does not satisfy the condition, the rest is gone through element by element. The first
element equal to the one that is taken out is that element, since what satisfies the condition is not in the front. -/
theorem recover_filter_append (c : Dependency → Bool) {front : List Dependency} (hfront : ∀ d ∈ front, c d = false)
    (rest : List Dependency) (o : Outcome) (ho : o.unresolved = front ++ rest) :
    o.recover (rest.filter c) =
      ({ o with
          unresolved := front ++ rest.filter (!c ·)
          recovered := o.recovered ++ rest.filter c }, .ok ()) := by
  induction rest generalizing front o with
  | nil =>
    rw [List.filter_nil, List.filter_nil, ← ho, List.append_nil]
    rfl
  | cons d rest ih =>
    cases hd : c d with
    | false =>
      rw [List.filter_cons_of_neg (Bool.eq_false_iff.1 hd), List.filter_cons_of_pos (by rw [hd]; rfl), List.append_cons]
      refine ih (List.forall_mem_append.2 ⟨hfront, List.forall_mem_singleton.2 hd⟩) o ?_
      rw [ho, List.append_cons]
    | true =>
      have hnot : d ∉ front := by
        intro hmem
        rw [hfront d hmem] at hd
        cases hd
      have hmem : d ∈ o.unresolved := by
        rw [ho]
        exact List.mem_append_right _ (List.mem_cons_self ..)
      have herase : o.unresolved.erase d = front ++ rest := by
        rw [ho, List.erase_append_right _ hnot, List.erase_cons_head]
      rw [List.filter_cons_of_pos hd, List.filter_cons_of_neg (by rw [hd]; exact Bool.false_ne_true)]
      unfold recover recoverOne
      rw [if_pos hmem, herase]
      refine (ih hfront _ rfl).trans ?_
      rw [List.append_assoc]
      rfl

/-- What satisfies a condition is taken out without failing. -/
theorem recover_filter (o : Outcome) (c : Dependency → Bool) :
    o.recover (o.unresolved.filter c) =
      ({ o with
          unresolved := o.unresolved.filter (!c ·)
          recovered := o.recovered ++ o.unresolved.filter c }, .ok ()) :=
  recover_filter_append c (List.forall_mem_nil _) o.unresolved o rfl

/-- Recovery by a condition moves all that satisfies it, in order, and does not fail. -/
theorem recoverWhere_eq (o : Outcome) (c : Dependency → Bool) :
    o.recoverWhere c =
      ({ o with
          unresolved := o.unresolved.filter (!c ·)
          recovered := o.recovered ++ o.unresolved.filter c }, .ok (o.unresolved.filter c)) := by
  unfold recoverWhere
  dsimp only
  rw [recover_filter]

/-! ## Both policies -/

/-- What recovery by a policy makes of an outcome. -/
structure Divides (policy : RecoveryPolicy) (o : Outcome) : Prop where
  /-- Recovery succeeds. What is built and then what is ignored is recovered, and what is lost is left, all in the
  order in which it was unresolved. -/
  recovers : o.recoverAll policy.reactor policy.systemMustResolve =
    ({ o with
        recovered := o.recovered ++ o.unresolved.filter policy.IsBuilt ++ o.unresolved.filter policy.IsIgnored
        unresolved := o.unresolved.filter policy.IsLost }, .ok ())
  /-- Everything unresolved is in one of the three parts, as often as it was unresolved. -/
  parts : (o.unresolved.filter policy.IsBuilt ++ o.unresolved.filter policy.IsIgnored ++
    o.unresolved.filter policy.IsLost).Perm o.unresolved
  /-- The map fails for what is lost, if anything is and no repository of the old layout is to blame, and it fails
  for nothing else. -/
  map {σ : Type} (f : Filter) (l : Ledger σ) : ((o.toMap policy f).run l).1 =
    if o.unresolved.filter policy.IsLost ≠ [] ∧ o.cause.bind (·.contentType) ≠ some "legacy" then
      .error (.unresolved (o.unresolved.filter policy.IsLost))
    else .ok (o.graph.flatten f.admits)

section Divides

variable (policy : RecoveryPolicy) (o : Outcome)

/-- What the reactor builds is recovered first. -/
theorem filter_builds :
    o.unresolved.filter (fun d => policy.reactor.any (·.builds d.artifact)) = o.unresolved.filter policy.IsBuilt := by
  refine List.filter_congr fun d _ => ?_
  rw [Bool.eq_iff_iff, decide_eq_true_iff]
  exact RecoveryPolicy.isBuilt_iff.symm

/-- What it does not build is left. -/
theorem filter_not_builds :
    o.unresolved.filter (fun d => !policy.reactor.any (·.builds d.artifact)) =
      o.unresolved.filter (¬ policy.IsBuilt ·) := by
  refine List.filter_congr fun d _ => ?_
  rw [Bool.eq_iff_iff, decide_eq_true_iff, RecoveryPolicy.isBuilt_iff, Bool.not_eq_true', Bool.not_eq_true]

/-- If what comes from the system has to resolve, nothing is ignored. -/
theorem not_isIgnored {policy : RecoveryPolicy} (h : policy.systemMustResolve = true) (d : Dependency) :
    ¬ policy.IsIgnored d := by
  rintro ⟨-, -, hlax⟩
  rw [h] at hlax
  cases hlax

/-- All recovery together moves what is built, then what is ignored, and leaves what is lost. -/
theorem recoverAll_eq : o.recoverAll policy.reactor policy.systemMustResolve =
    ({ o with
        recovered := o.recovered ++ o.unresolved.filter policy.IsBuilt ++ o.unresolved.filter policy.IsIgnored
        unresolved := o.unresolved.filter policy.IsLost }, .ok ()) := by
  unfold recoverAll recoverBuilt
  rw [recoverWhere_eq, filter_builds, filter_not_builds]
  dsimp only
  -- only if the system need not resolve is there a second step
  cases hsystem : policy.systemMustResolve with
  | true =>
    have hignored : o.unresolved.filter policy.IsIgnored = [] :=
      List.filter_eq_nil_iff.2 fun d _ => by simpa using not_isIgnored hsystem d
    have hlost : o.unresolved.filter policy.IsLost = o.unresolved.filter (¬ policy.IsBuilt ·) := by
      refine List.filter_congr fun d _ => ?_
      unfold RecoveryPolicy.IsLost
      simp [not_isIgnored hsystem d]
    rw [if_pos rfl, hignored, hlost, List.append_nil]
  | false =>
    have hignored : (o.unresolved.filter (¬ policy.IsBuilt ·)).filter (·.scope == "system") =
        o.unresolved.filter policy.IsIgnored := by
      rw [List.filter_filter]
      refine List.filter_congr fun d _ => Bool.eq_iff_iff.2 ?_
      unfold RecoveryPolicy.IsIgnored
      simp [hsystem, and_comm]
    have hlost : (o.unresolved.filter (¬ policy.IsBuilt ·)).filter (!·.scope == "system") =
        o.unresolved.filter policy.IsLost := by
      rw [List.filter_filter]
      refine List.filter_congr fun d _ => Bool.eq_iff_iff.2 ?_
      unfold RecoveryPolicy.IsLost RecoveryPolicy.IsIgnored
      by_cases hbuilt : policy.IsBuilt d <;> simp [hsystem, hbuilt]
    unfold recoverSystem
    rw [if_neg Bool.false_ne_true, recoverWhere_eq]
    dsimp only
    rw [hignored, hlost]

/-- Everything is built, or ignored, or lost, and nothing is two of these. -/
theorem perm_parts (ds : List Dependency) :
    (ds.filter policy.IsBuilt ++ ds.filter policy.IsIgnored ++ ds.filter policy.IsLost).Perm ds := by
  induction ds with
  | nil => exact .refl _
  | cons d ds ih =>
    -- each dependency goes into the first part that takes it
    by_cases hbuilt : policy.IsBuilt d
    · have hignored : ¬ policy.IsIgnored d := fun h => h.1 hbuilt
      have hlost : ¬ policy.IsLost d := fun h => h.1 hbuilt
      simpa [hbuilt, hignored, hlost] using ih
    · by_cases hignored : policy.IsIgnored d
      · have hlost : ¬ policy.IsLost d := fun h => h.2 hignored
        have hmiddle : (ds.filter policy.IsBuilt ++ d :: (ds.filter policy.IsIgnored ++ ds.filter policy.IsLost)).Perm
            (d :: (ds.filter policy.IsBuilt ++ (ds.filter policy.IsIgnored ++ ds.filter policy.IsLost))) :=
          List.perm_middle
        simpa [hbuilt, hignored, hlost] using hmiddle.trans (by simpa using ih.cons d)
      · have hlost : policy.IsLost d := ⟨hbuilt, hignored⟩
        have hmiddle : (ds.filter policy.IsBuilt ++ ds.filter policy.IsIgnored ++ d :: ds.filter policy.IsLost).Perm
            (d :: (ds.filter policy.IsBuilt ++ ds.filter policy.IsIgnored ++ ds.filter policy.IsLost)) :=
          List.perm_middle
        simpa [hbuilt, hignored, hlost] using hmiddle.trans (ih.cons d)

/-- What is unresolved fails, unless a repository of the old layout is to blame. -/
theorem fst_run_accept {σ : Type} (l : Ledger σ) : ((o.accept : Step σ Unit).run l).1 =
    if o.unresolved ≠ [] ∧ o.cause.bind (·.contentType) ≠ some "legacy" then .error (.unresolved o.unresolved)
    else .ok () := by
  have hlegacy : o.isLegacyFailure = true ↔ o.cause.bind (·.contentType) = some "legacy" := by
    unfold isLegacyFailure
    cases o.cause with
    | none => simp
    | some cause => simp
  have hempty : o.unresolved.isEmpty = true ↔ o.unresolved = [] := List.isEmpty_iff
  unfold accept
  -- three ends: nothing unresolved, a legacy repository, or a failure
  by_cases hunresolved : o.unresolved = []
  · rw [if_pos (hempty.2 hunresolved), if_neg fun h => h.1 hunresolved]
    rfl
  · rw [if_neg fun h => hunresolved (hempty.1 h)]
    by_cases hcause : o.cause.bind (·.contentType) = some "legacy"
    · rw [if_pos (hlegacy.2 hcause), if_neg fun h => h.2 hcause]
      rfl
    · rw [if_neg fun h => hcause (hlegacy.1 h), if_pos ⟨hunresolved, hcause⟩]
      rfl

/-- Recovery divides what was unresolved. -/
theorem divides_unresolved : o.Divides policy where
  recovers := recoverAll_eq policy o
  parts := perm_parts policy o.unresolved
  map := by
    intro σ f l
    have haccept := fst_run_accept { o with
      recovered := o.recovered ++ o.unresolved.filter policy.IsBuilt ++ o.unresolved.filter policy.IsIgnored
      unresolved := o.unresolved.filter policy.IsLost } l
    unfold toMap
    rw [recoverAll_eq]
    dsimp only at haccept ⊢
    rw [Step.run_bind, Step.run_ofExcept]
    dsimp only
    rw [Step.run_bind]
    -- whatever is accepted, the map is the flattened graph
    rcases hrun : (accept (σ := σ) _).run l with ⟨r, l'⟩
    rw [hrun] at haccept
    dsimp only at haccept
    by_cases hfails : o.unresolved.filter policy.IsLost ≠ [] ∧ o.cause.bind (·.contentType) ≠ some "legacy"
    · rw [if_pos hfails] at haccept ⊢
      rw [haccept]
    · rw [if_neg hfails] at haccept ⊢
      rw [haccept]
      rfl

end Divides

end Outcome

end VersionAudit
