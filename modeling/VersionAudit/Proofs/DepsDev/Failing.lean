import VersionAudit.Proofs.DepsDev.Answers
import VersionAudit.Proofs.Step.Sparing

/-!
# How the resolver fails

1. `Merge.run_error`: the only failure of a merge is an edge that leads nowhere.
2. `spares_resolveNode`, `spares_versions`: the failures that the graph of a node, and the versions of an artifact, can
   end with.
-/

namespace VersionAudit.DepsDev

open Step (Spares)

open Merge

variable {σ : Type} {t : Transport σ} {timeout : Int} {E : Failure → Prop}

/-! ## Merges -/

/-- Looking at an edge fails only if there is no package where it leads. -/
theorem Merge.take_error {r : Pending} {m : Merge} {j : Int} {e : Failure} (h : take r m j = .error e) :
    e = .danglingEdge := by
  rcases take_cases r m j with hnowhere | hsame | ⟨q, derived, htaken⟩
  · rw [hnowhere] at h
    exact (Except.error.inj h).symm
  · rw [hsame] at h
    cases h
  · rw [htaken] at h
    cases h

/-- Looking at all edges of a node fails for the same reason only. -/
theorem Merge.expand_error {m : Merge} {r : Pending} {e : Failure} (h : m.expand r = .error e) :
    e = .danglingEdge := by
  unfold expand at h
  generalize r.graph.targets r.place = targets at h
  induction targets generalizing m with
  | nil => cases h
  | cons j js ih =>
    rw [List.foldlM_cons] at h
    cases hfirst : take r m j with
    | ok m' =>
      rw [hfirst] at h
      exact ih h
    | error e' =>
      rw [hfirst] at h
      obtain rfl := Except.error.inj h
      exact take_error hfirst

/-- A merge fails only if some edge leads nowhere. -/
theorem Merge.run_error {fuel : Nat} {m : Merge} {e : Failure} (h : run fuel m = .error e) : e = .danglingEdge := by
  induction fuel generalizing m with
  | zero => cases h
  | succ fuel ih =>
    unfold run at h
    split at h
    · cases h
    · rename_i r rest hqueue
      cases hexpand : expand { m with queue := rest } r with
      | ok m' =>
        rw [hexpand] at h
        exact ih h
      | error e' =>
        rw [hexpand] at h
        obtain rfl := Except.error.inj h
        exact expand_error hexpand

/-! ## Questions -/

/-- Asking the service fails in no way of its own, since a failed request is noted and taken for no answer. -/
theorem spares_ask (address subject : String) : Spares E (ask t timeout address subject) := by
  intro l e he
  obtain ⟨l', hask⟩ := exists_ask t timeout address subject l
  rw [hask] at he
  cases he

theorem spares_keepGraph (a : Artifact) (answer : Option PackageGraph) :
    Spares E (keepGraph (σ := σ) a answer) := by
  have hstore := Spares.bind (E := E) (Spares.read (σ := Memory σ)) fun memory =>
    Spares.bind (.write (s := { memory with graphs := memory.graphs.store (a.group, a.name, a.version) answer }))
      fun _ => Spares.pure (a := (((memory.graphs.store (a.group, a.name, a.version) answer).kept?
        (a.group, a.name, a.version)).getD answer))
  cases answer with
  | none => exact .bind .warn fun _ => hstore
  | some graph => exact hstore

/-- Fetching a graph fails only for a malformed answer. -/
theorem spares_fetchGraph (hanswer : ∀ fault, ¬ E (.malformedAnswer fault)) (a : Artifact) :
    Spares E (fetchGraph t timeout a) := by
  unfold fetchGraph
  refine .bind .read fun memory => ?_
  split
  · exact .pure
  · refine .bind (.within (spares_ask _ _)) fun body => ?_
    cases body with
    | none => exact spares_keepGraph a none
    | some j =>
      refine .bind (.ofExcept fun e he => ?_) (spares_keepGraph a)
      obtain ⟨fault, rfl⟩ := Except.of_mapError_error he
      exact hanswer fault

/-- The graph of a node may be unknown, and the answers about it may be malformed or have an edge that leads nowhere;
there are no other failures. -/
theorem spares_resolveNode (hanswer : ∀ fault, ¬ E (.malformedAnswer fault)) (hunknown : ∀ a, ¬ E (.unknownModel a))
    (hedge : ¬ E .danglingEdge) (n : Node) : Spares E (resolveNode t timeout n) := by
  unfold resolveNode
  refine .bind (spares_fetchGraph hanswer _) fun graph? => ?_
  split
  · exact .fail (hunknown _)
  · split
    · exact .fail (hunknown _)
    · refine .bind (.ofExcept fun e he => ?_) fun m => .pure
      obtain rfl := Merge.run_error he
      exact hedge

/-! ## Versions -/

/-- Listing versions fails only for a malformed answer. -/
theorem spares_fetchVersions (hanswer : ∀ fault, ¬ E (.malformedAnswer fault)) (group name : String) :
    Spares E (fetchVersions t timeout group name) := by
  unfold fetchVersions
  refine .bind .read fun memory => ?_
  split
  · exact .pure
  · refine .bind (.within ?_) fun answer => .bind .read fun memory => .bind .write fun _ => .pure
    unfold versionsAnswer?
    refine .bind (spares_ask _ _) fun body => ?_
    split
    · exact .pure
    · exact .pure
    · refine .bind (.ofExcept fun e he => ?_) fun _ => .pure
      obtain ⟨fault, rfl⟩ := Except.of_mapError_error he
      exact hanswer fault

/-- A specification may be malformed, and so may the answer about the published versions; there are no other failures. -/
theorem spares_versions (hanswer : ∀ fault, ¬ E (.malformedAnswer fault)) (hrange : ∀ fault, ¬ E (.range fault))
    (a : Artifact) : Spares E (versions t timeout a) := by
  unfold versions
  split
  · exact .fail (hrange _)
  · split
    · exact .pure
    · exact .bind (spares_fetchVersions hanswer _ _) fun _ => .pure

end VersionAudit.DepsDev
