import VersionAudit.Proofs.Analysis.Contributions

/-!
# How a task fails

What a task adds to the failures of the resolver: a node that should be hidden, a scope that is unknown, something
asked of a node that nothing requests, and dependencies that are not resolved. Its direct part may find a version
inconsistent as well. A sort of failures without these is one that a task never ends with, if the resolver does not.
-/

namespace VersionAudit

open Step (Spares)

/-- A sort of failures that the transitive part of a task does not add. -/
structure Failure.Foreign (E : Failure → Prop) : Prop where
  unknownScope : ∀ scope, ¬ E (.unknownScope scope)
  unrequested : ∀ part, ¬ E (.unrequested part)
  notUnresolved : ¬ E .notUnresolved
  unresolved : ∀ ds, ds ≠ [] → ¬ E (.unresolved ds)

section Tasks

variable {σ : Type} {s : Setting σ} {E : Failure → Prop} (hE : Failure.Foreign E)

include hE

omit hE in
/-- The check of visibility fails only for hidden nodes. -/
theorem Setting.spares_checkVisible (hhidden : ∀ d n, ¬ E (.hidden d n)) (visible : Filter) (d : Dependency) (n : Node) :
    Spares E (checkVisible (σ := σ) visible d n) := by
  unfold checkVisible
  split
  · exact .pure
  · exact .fail (hhidden d n)

omit hE in
/-- Judging one node below a dependency fails only where a part was not requested. -/
theorem Setting.spares_transitiveRequest (requester : Identity) (n : Node) :
    Spares E (s.transitiveRequest requester n) := by
  intro l e he
  obtain ⟨o, l', hrun, -⟩ := exists_run_transitiveRequest s requester n l
  rw [hrun] at he
  cases he

/-- Judging all of them fails as the resolver does for the node, or in this way. -/
theorem Setting.spares_transitiveRequests (hnode : ∀ n f, Spares E (s.resolver.node n f)) (d : Dependency) (n : Node)
    (f : Filter) : Spares E (s.transitiveRequests d n f) := by
  unfold transitiveRequests
  refine .bind (.within (.bind (hnode n _) fun o => Outcome.spares_toMap hE.notUnresolved hE.unresolved _ _ o))
    fun map => ?_
  refine .bind (.ofExcept fun e he => ?_) fun nodes => .filterMapM fun m _ => spares_transitiveRequest _ m
  rw [passedOn_error he]
  exact hE.unrequested _

/-- The transitive part fails as the resolver does, but for models that cannot be read. -/
theorem Setting.spares_transitivePart (hnode : ∀ n f, Spares E (s.resolver.node n f)) (d : Dependency) (n : Node) :
    Spares E (s.transitivePart d n) := by
  unfold transitivePart
  refine .bind (.ofExcept fun e he => ?_) fun f => ?_
  -- a scope that is not known is a failure of the project, not of the resolver
  · unfold Filter.passedOn at he
    split at he
    · cases he
    · obtain rfl := Except.error.inj he
      exact hE.unknownScope _
  · refine .bind_outcome (spares_transitiveRequests hE hnode d n f) fun r hr => ?_
    split
    · exact .pure
    · split
      · split
        · exact .bind .warn fun _ => .pure
        · exact .pure
      -- any other failure is passed on, and was spared before
      · exact .fail (hr _ rfl)

/-- Such a failure comes from the direct part of a task. -/
theorem Setting.contribution_error_iff (hnode : ∀ n f, Spares E (s.resolver.node n f)) {visible : Filter}
    (hvisible : ∀ d n, Spares E (checkVisible (σ := σ) visible d n)) (d : Dependency) {l : Ledger (Bench σ)} {e : Failure} (he : E e) :
    ((s.contribution visible d).run l).1 = .error e ↔ ((s.directPart visible d).run l).1 = .error e := by
  unfold contribution
  refine Spares.error_bind_iff (fun direct => ?_) he
  split
  · exact .pure
  · refine .bind (hvisible d _) fun _ => ?_
    split
    · exact .pure
    · exact .bind (spares_transitivePart hE hnode d _) fun _ => .pure

omit hE in
/-- The direct part fails for an inconsistent version, for a hidden node, or as the resolver does when it lists
versions. -/
theorem Setting.spares_directPart (hinconsistent : ∀ d v, ¬ E (.inconsistent d v))
    (hversions : ∀ a, Spares E (s.resolver.versions a)) {visible : Filter}
    (hvisible : ∀ d n, Spares E (checkVisible (σ := σ) visible d n)) (d : Dependency) :
    Spares E (s.directPart visible d) := by
  unfold directPart
  split
  · exact .pure
  · rename_i n _
    refine .bind (hvisible d n) fun _ => .bind ?_ fun _ => .pure
    unfold directRequest
    refine .bind (.within (hversions _)) fun versions => ?_
    dsimp only
    split
    · exact .fail (hinconsistent d _)
    · refine .bind (fun l e he => ?_) fun _ => .pure
      -- a verdict is always reached
      obtain ⟨conflict, l', hrun⟩ := exists_run_inConflict s n (.ofArtifact d.artifact) ⟨n.artifact.version⟩
        ⟨n.artifact.version⟩ l
      rw [hrun] at he
      cases he

/-- A task fails as its parts do. -/
theorem Setting.spares_task (hinconsistent : ∀ d v, ¬ E (.inconsistent d v))
    (hnode : ∀ n f, Spares E (s.resolver.node n f)) (hversions : ∀ a, Spares E (s.resolver.versions a))
    {visible : Filter} (hvisible : ∀ d n, Spares E (checkVisible (σ := σ) visible d n)) (d : Option Dependency) : Spares E (s.task visible d) := by
  cases d with
  | none => exact .fail (hE.unrequested _)
  | some d =>
    intro l e he hEe
    have hdirect : ((s.directPart visible d).run l).1 = .error e := (contribution_error_iff hE hnode hvisible d hEe).1 he
    exact spares_directPart hinconsistent hversions hvisible d l e hdirect hEe

end Tasks

end VersionAudit
