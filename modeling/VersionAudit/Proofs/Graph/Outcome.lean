import VersionAudit.Graph.Resolver
import VersionAudit.Proofs.Step.Related
import VersionAudit.Proofs.Step.Sparing

/-!
# From outcomes to maps

An outcome is recovered, accepted and flattened.

1. `recovers_recoverAll`: recovery leaves the graph as it is and loses nothing.
2. A map is the flattened graph of its outcome (`eq_flatten_of_run_toMap`), of which everything unresolved was
   recovered (`recovered_of_run_toMap`).
3. `related_toMap`, `spares_toMap`: what two runs of this have in common, and how it fails.
-/

namespace VersionAudit.Outcome

variable {σ : Type}

/-! ## Recovery -/

/-- What a recovery gives: graph and cause are those of the outcome, nothing unresolved is lost, what is recovered has
`P`, and the only failure is that something to recover was not unresolved. -/
structure Recovers {α : Type} (P : Dependency → Prop) (o : Outcome) (x : Outcome × Except Failure α) : Prop where
  graph : x.1.graph = o.graph
  cause : x.1.cause = o.cause
  unresolved : ∀ d ∈ o.unresolved, d ∈ x.1.unresolved ∨ d ∈ x.1.recovered
  recovered : ∀ d ∈ o.recovered, d ∈ x.1.recovered
  sound : ∀ d ∈ x.1.recovered, d ∈ o.recovered ∨ P d
  error : ∀ e, x.2 = .error e → e = .notUnresolved

section Recovery

variable {α β : Type} {P Q : Dependency → Prop} {o : Outcome}

/-- Recovering nothing leaves the outcome as it is. -/
theorem Recovers.refl (P : Dependency → Prop) (o : Outcome) {r : Except Failure α}
    (hr : ∀ e, r = .error e → e = .notUnresolved) : o.Recovers P (o, r) where
  graph := rfl
  cause := rfl
  unresolved _ hd := .inl hd
  recovered _ hd := hd
  sound _ hd := .inl hd
  error := hr

theorem Recovers.mono {x : Outcome × Except Failure α} (h : o.Recovers P x) (hPQ : ∀ d, P d → Q d) : o.Recovers Q x :=
  { h with sound := fun d hd => (h.sound d hd).imp_right (hPQ d) }

/-- One recovery after the other. -/
theorem Recovers.trans {x : Outcome × Except Failure α} {y : Outcome × Except Failure β} (hx : o.Recovers P x)
    (hy : x.1.Recovers P y) : o.Recovers P y where
  graph := hy.graph.trans hx.graph
  cause := hy.cause.trans hx.cause
  unresolved := by
    intro d hd
    rcases hx.unresolved d hd with hd | hd
    · exact hy.unresolved d hd
    · exact .inr (hy.recovered d hd)
  recovered d hd := hy.recovered d (hx.recovered d hd)
  sound := by
    intro d hd
    rcases hy.sound d hd with hd | hd
    · exact hx.sound d hd
    · exact .inr hd
  error := hy.error

/-- What is recovered does not depend on how the recovery ends. -/
theorem Recovers.ending {o' : Outcome} {r : Except Failure α} {r' : Except Failure β} (h : o.Recovers P (o', r))
    (hr : ∀ e, r' = .error e → e = .notUnresolved) : o.Recovers P (o', r') :=
  { h with error := hr }

/-- Recovery takes what it is asked to take out of what is unresolved. -/
theorem recovers_recover (o : Outcome) (ds : List Dependency) : o.Recovers (· ∈ ds) (o.recover ds) := by
  induction ds generalizing o with
  | nil => exact .refl _ _ fun e he => by cases he
  | cons d ds ih =>
    unfold recover recoverOne
    by_cases hd : d ∈ o.unresolved
    · rw [if_pos hd]
      -- the dependency leaves one list, where it may stand more than once, for the other
      have hone : o.Recovers (· ∈ d :: ds)
          (({ o with unresolved := o.unresolved.erase d, recovered := o.recovered ++ [d] } : Outcome),
            (Except.ok () : Except Failure Unit)) := by
        refine ⟨rfl, rfl, ?_, fun e he => List.mem_append_left _ he, ?_, fun e he => by cases he⟩
        · intro e he
          by_cases heq : e = d
          · exact .inr (List.mem_append_right _ (List.mem_singleton.2 heq))
          · exact .inl ((List.mem_erase_of_ne heq).2 he)
        · intro e he
          refine (List.mem_append.1 he).imp_right fun he => ?_
          obtain rfl := List.mem_singleton.1 he
          exact List.mem_cons_self ..
      exact hone.trans ((ih _).mono fun e he => List.mem_cons_of_mem _ he)
    · rw [if_neg hd]
      exact .refl _ _ fun e he => (Except.error.inj he).symm

/-- Recovery by a condition takes what satisfies it. -/
theorem recovers_recoverWhere (o : Outcome) (condition : Dependency → Bool) :
    o.Recovers (condition · = true) (o.recoverWhere condition) := by
  have hrecovers : o.Recovers (condition · = true) (o.recover (o.unresolved.filter condition)) :=
    (o.recovers_recover _).mono fun d hd => (List.mem_filter.1 hd).2
  unfold recoverWhere
  dsimp only
  rcases hrun : o.recover (o.unresolved.filter condition) with ⟨o', r⟩
  rw [hrun] at hrecovers
  cases r with
  | ok => exact hrecovers.ending fun e he => by cases he
  | error failure => exact hrecovers.ending fun e he => hrecovers.error e (congrArg _ (Except.error.inj he))

/-- What may be recovered: what the projects of the build produce, and what comes from the system unless it has to
resolve. -/
def Recoverable (reactor : List Project) (systemMustResolve : Bool) (d : Dependency) : Prop :=
  reactor.any (·.builds d.artifact) = true ∨ systemMustResolve = false ∧ d.scope = "system"

/-- All recovery together takes what the reactor builds, and what the system provides if that need not resolve. -/
theorem recovers_recoverAll (reactor : List Project) (systemMustResolve : Bool) (o : Outcome) :
    o.Recovers (Recoverable reactor systemMustResolve) (o.recoverAll reactor systemMustResolve) := by
  have hbuilt := o.recovers_recoverWhere fun d => reactor.any (·.builds d.artifact)
  unfold recoverAll recoverBuilt
  rcases hrun : o.recoverWhere fun d => reactor.any (·.builds d.artifact) with ⟨o', r⟩
  rw [hrun] at hbuilt
  have hall : o.Recovers (Recoverable reactor systemMustResolve) (o', r) := hbuilt.mono fun d hd => .inl hd
  -- the second step goes on from the first one, unless that has failed
  cases r with
  | error failure => exact hall.ending fun e he => hbuilt.error e (congrArg _ (Except.error.inj he))
  | ok found =>
    cases systemMustResolve with
    | true => exact hall.ending fun e he => by cases he
    | false =>
      have hsystem := o'.recovers_recoverWhere fun d => d.scope == "system"
      unfold recoverSystem
      rcases hrun' : o'.recoverWhere fun d => d.scope == "system" with ⟨o'', r⟩
      rw [hrun'] at hsystem
      have hboth : o.Recovers (Recoverable reactor false) (o'', r) :=
        hall.trans (hsystem.mono fun d hd => .inr ⟨rfl, by simpa using hd⟩)
      dsimp only
      rw [if_neg Bool.false_ne_true, hrun']
      cases r with
      | error failure => exact hboth.ending fun e he => hsystem.error e (congrArg _ (Except.error.inj he))
      | ok found => exact hboth.ending fun e he => by cases he

end Recovery

/-! ## Maps -/

/-- A map is the flattened graph of its outcome. -/
theorem eq_flatten_of_run_toMap {policy : RecoveryPolicy} {f : Filter} {o : Outcome} {l l' : Ledger σ}
    {m : DependencyMap} (h : (o.toMap policy f : Step σ DependencyMap).run l = (.ok m, l')) :
    m = o.graph.flatten f.admits := by
  have hgraph := (o.recovers_recoverAll policy.reactor policy.systemMustResolve).graph
  unfold toMap at h
  rcases hrun : o.recoverAll policy.reactor policy.systemMustResolve with ⟨o', recovery⟩
  rw [hrun] at h hgraph
  simp only [Step.run_bind_ok_iff, Step.run_pure] at h
  rcases h with ⟨_, _, -, _, _, -, heq⟩
  obtain rfl := Except.ok.inj (Prod.mk.inj heq).1
  exact congrArg (Graph.flatten · f.admits) hgraph

/-- Unless a repository of the old layout is to blame, there is no map as long as something is unresolved. -/
theorem recovered_of_run_toMap {policy : RecoveryPolicy} {f : Filter} {o : Outcome} {l l' : Ledger σ}
    {m : DependencyMap} (h : (o.toMap policy f : Step σ DependencyMap).run l = (.ok m, l'))
    (hcause : o.isLegacyFailure = false) {d : Dependency} (hd : d ∈ o.unresolved) :
    d ∈ (o.recoverAll policy.reactor policy.systemMustResolve).1.recovered := by
  have hrecovers := o.recovers_recoverAll policy.reactor policy.systemMustResolve
  unfold toMap at h
  rcases hrun : o.recoverAll policy.reactor policy.systemMustResolve with ⟨o', recovery⟩
  rw [hrun] at h hrecovers
  obtain ⟨_, k, -, hrest⟩ := Step.run_bind_ok_iff.1 h
  obtain ⟨_, k', haccept, -⟩ := Step.run_bind_ok_iff.1 hrest
  have hlegacy : o'.isLegacyFailure = false := by
    rw [← hcause]
    unfold isLegacyFailure
    rw [hrecovers.cause]
  -- what is left unresolved makes the map fail, so the dependency was recovered
  rcases hrecovers.unresolved d hd with hleft | hrecovered
  · unfold accept at haccept
    have hsome : o'.unresolved.isEmpty = false := List.isEmpty_eq_false_iff.2 (List.ne_nil_of_mem hleft)
    simp only [hsome, hlegacy, Bool.false_eq_true, if_false, Step.run_fail] at haccept
    cases haccept
  · exact hrecovered

/-- What a map is made of does not depend on the ledger. -/
theorem related_toMap {P : Ledger σ → Ledger σ → Prop}
    (hwarn : ∀ text, Step.Related P (Step.warn text) (Step.warn text) Eq) (policy : RecoveryPolicy) (f : Filter)
    (o : Outcome) : Step.Related P (o.toMap policy f) (o.toMap policy f) Eq := by
  unfold toMap
  dsimp only
  refine .bind (.ofExcept (Step.alike_self _)) fun _ _ _ => ?_
  refine .bind (S := Eq) ?_ fun _ _ _ => .pure rfl
  unfold accept
  split
  · exact .pure rfl
  · split
    · exact hwarn _
    · exact .fail

/-- An outcome is refused with the dependencies that are unresolved, of which there are some. -/
theorem spares_accept {E : Failure → Prop} (h : ∀ ds, ds ≠ [] → ¬ E (.unresolved ds)) (o : Outcome) :
    Step.Spares E (o.accept : Step σ Unit) := by
  unfold accept
  split
  · exact .pure
  · rename_i hsome
    split
    · exact .warn
    · exact .fail (h _ fun hnone => hsome (List.isEmpty_iff.2 hnone))

/-- Recovery may find nothing to recover, and what is left unresolved, if anything, fails; there are no other
failures. -/
theorem spares_toMap {E : Failure → Prop} (hrecovery : ¬ E .notUnresolved)
    (haccept : ∀ ds, ds ≠ [] → ¬ E (.unresolved ds)) (policy : RecoveryPolicy) (f : Filter) (o : Outcome) :
    Step.Spares E (o.toMap policy f : Step σ DependencyMap) := by
  unfold toMap
  refine .bind (.ofExcept fun e he => ?_) fun _ => .bind (spares_accept haccept _) fun _ => .pure
  rw [(o.recovers_recoverAll policy.reactor policy.systemMustResolve).error e he]
  exact hrecovery

end VersionAudit.Outcome
