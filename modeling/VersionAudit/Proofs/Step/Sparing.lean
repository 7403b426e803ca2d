import VersionAudit.Proofs.Except
import VersionAudit.Proofs.Step

/-!
# Failures that a step does not have

A step spares failures of some sort if it never ends with one of them, whatever it is run from. There is one rule for
each way of building a step.
-/

namespace VersionAudit

namespace Step

variable {σ τ α β : Type}

/-- The step never ends with a failure that has `E`. -/
def Spares (E : Failure → Prop) (step : Step σ α) : Prop :=
  ∀ l e, (step.run l).1 = .error e → ¬ E e

namespace Spares

variable {E : Failure → Prop}

theorem pure {a : α} : Spares E (Pure.pure a : Step σ α) :=
  fun _ _ h => by cases h

theorem fail {failure : Failure} (h : ¬ E failure) : Spares E (Step.fail failure : Step σ α) := by
  intro l e he
  obtain rfl := Except.error.inj he
  exact h

theorem warn {text : String} : Spares E (Step.warn text : Step σ Unit) :=
  fun _ _ h => by cases h

theorem read : Spares E (Step.read : Step σ σ) :=
  fun _ _ h => by cases h

theorem write {s : σ} : Spares E (Step.write s) :=
  fun _ _ h => by cases h

theorem ofExcept {x : Except Failure α} (h : ∀ e, x = .error e → ¬ E e) : Spares E (Step.ofExcept x : Step σ α) := by
  intro l e he
  rw [run_ofExcept] at he
  exact h e he

/-- A composed step spares what both its parts spare. -/
theorem bind {step : Step σ α} {f : α → Step σ β} (h : Spares E step) (hf : ∀ a, Spares E (f a)) :
    Spares E (step >>= f) := by
  intro l e he
  rcases hrun : (step >>= f).run l with ⟨r, l'⟩
  rw [hrun] at he
  obtain rfl : r = .error e := he
  -- the failure is that of the first step, or of what follows its value
  rcases run_bind_error_iff.1 hrun with hfirst | ⟨a, m, -, hrest⟩
  · exact h l e (by rw [hfirst])
  · exact hf a m e (by rw [hrest])

/-- If what follows spares them, such failures come from the first step. -/
theorem error_bind_iff {step : Step σ α} {f : α → Step σ β} (hf : ∀ a, Spares E (f a)) {e : Failure} (he : E e)
    {l : Ledger σ} : ((step >>= f).run l).1 = .error e ↔ (step.run l).1 = .error e := by
  rw [run_bind]
  -- what follows only runs on a value, and then such a failure cannot be its end
  rcases step.run l with ⟨r, m⟩
  cases r with
  | ok a => exact ⟨fun h => absurd he (hf a m e h), fun h => by cases h⟩
  | error e' => exact ⟨fun h => congrArg _ (Except.error.inj h), fun h => congrArg _ (Except.error.inj h)⟩

/-- A failure that is looked at has been spared as well. -/
theorem bind_outcome {step : Step σ α} {f : Except Failure α → Step σ β} (h : Spares E step)
    (hf : ∀ r, (∀ e, r = .error e → ¬ E e) → Spares E (f r)) : Spares E (step.outcome >>= f) := by
  intro l e he
  rw [run_bind, run_outcome] at he
  exact hf _ (fun e' he' => h l e' he') _ e he

theorem within {get : τ → σ} {put : σ → τ → τ} {step : Step σ α} (h : Spares E step) :
    Spares E (step.within get put) :=
  fun _ e he => h _ e he

/-- A step run for each element of a list spares what it spares for one. -/
theorem filterMapM {f : α → Step σ (Option β)} {xs : List α} (h : ∀ x ∈ xs, Spares E (f x)) :
    Spares E (xs.filterMapM f) := by
  induction xs with
  | nil => exact .pure
  | cons x xs ih =>
    rw [List.filterMapM_cons]
    have hrest := ih fun x' hx' => h x' (List.mem_cons_of_mem _ hx')
    -- the first element, and then the others whether or not its value is kept
    refine .bind (h x (List.mem_cons_self ..)) fun o => ?_
    cases o with
    | none => exact hrest
    | some y => exact .bind hrest fun ys => .pure

end Spares

end Step

end VersionAudit
