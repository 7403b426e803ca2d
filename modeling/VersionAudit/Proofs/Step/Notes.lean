import VersionAudit.Proofs.Step

/-!
# The notes of a step

Notes are only ever added. `Adds` says so, with what is known of those that a step adds, also if it fails. There is one
rule for each way of building a step.
-/

namespace VersionAudit.Step

variable {σ τ α β : Type}

/-- The step only adds notes, and those have `T`. -/
def Adds (T : Note → Prop) (step : Step σ α) : Prop :=
  ∀ l, ∃ added, (step.run l).2.notes = l.notes ++ added ∧ ∀ n ∈ added, T n

namespace Adds

variable {T : Note → Prop}

/-- A step that leaves the notes as they are. -/
theorem of_same {step : Step σ α} (h : ∀ l, (step.run l).2.notes = l.notes) : Adds T step :=
  fun l => ⟨[], by rw [h, List.append_nil], by simp⟩

theorem pure {a : α} : Adds T (Pure.pure a : Step σ α) :=
  .of_same fun _ => rfl

theorem fail {failure : Failure} : Adds T (Step.fail failure : Step σ α) :=
  .of_same fun _ => rfl

theorem read : Adds T (Step.read : Step σ σ) :=
  .of_same fun _ => rfl

theorem write {s : σ} : Adds T (Step.write s) :=
  .of_same fun _ => rfl

theorem ofExcept {x : Except Failure α} : Adds T (Step.ofExcept x : Step σ α) :=
  .of_same fun l => by rw [run_ofExcept]

theorem note {level : Level} {speaker : Speaker} {text : String} (h : T ⟨level, speaker, text⟩) :
    Adds T (Step.note level speaker text : Step σ Unit) :=
  fun _ => ⟨[⟨level, speaker, text⟩], rfl, by simpa using h⟩

theorem mono {T' : Note → Prop} {step : Step σ α} (h : Adds T step) (hT : ∀ n, T n → T' n) : Adds T' step := by
  intro l
  obtain ⟨added, hnotes, hadded⟩ := h l
  exact ⟨added, hnotes, fun n hn => hT n (hadded n hn)⟩

/-- What a run from some ledger adds may be added to by another run. -/
theorem then_run {step : Step σ α} (h : Adds T step) {start : List Note} {l : Ledger σ}
    (hl : ∃ added, l.notes = start ++ added ∧ ∀ n ∈ added, T n) :
    ∃ added, (step.run l).2.notes = start ++ added ∧ ∀ n ∈ added, T n := by
  obtain ⟨before, hbefore, hT⟩ := hl
  obtain ⟨added, hnotes, hadded⟩ := h l
  -- notes are added at the end, so that those of the earlier run come first
  refine ⟨before ++ added, by rw [hnotes, hbefore, List.append_assoc], ?_⟩
  intro n hn
  rcases List.mem_append.1 hn with hn | hn
  · exact hT n hn
  · exact hadded n hn

/-- A composed step adds what its parts add, the second one only if the first one gives a value. -/
theorem bind {step : Step σ α} {f : α → Step σ β} (h : Adds T step) (hf : ∀ a, Adds T (f a)) : Adds T (step >>= f) := by
  intro l
  have hfirst := h l
  rw [run_bind]
  rcases hrun : step.run l with ⟨r, m⟩
  rw [hrun] at hfirst
  -- a step that fails leaves its notes
  cases r with
  | ok a => exact (hf a).then_run hfirst
  | error failure => exact hfirst

theorem outcome {step : Step σ α} (h : Adds T step) : Adds T step.outcome :=
  h

theorem within {get : τ → σ} {put : σ → τ → τ} {step : Step σ α} (h : Adds T step) : Adds T (step.within get put) :=
  fun l => h ⟨get l.state, l.notes⟩

/-- A step run for each element of a list adds what it adds for one. -/
theorem mapM {f : α → Step σ β} {xs : List α} (h : ∀ x ∈ xs, Adds T (f x)) : Adds T (xs.mapM f) := by
  induction xs with
  | nil => exact .pure
  | cons x xs ih =>
    rw [List.mapM_cons]
    refine .bind (h x (List.mem_cons_self ..)) fun y => ?_
    exact .bind (ih fun x' hx' => h x' (List.mem_cons_of_mem _ hx')) fun ys => .pure

/-- The same when only some of the values are kept. -/
theorem filterMapM {f : α → Step σ (Option β)} {xs : List α} (h : ∀ x ∈ xs, Adds T (f x)) : Adds T (xs.filterMapM f) := by
  induction xs with
  | nil => exact .pure
  | cons x xs ih =>
    rw [List.filterMapM_cons]
    have hrest := ih fun x' hx' => h x' (List.mem_cons_of_mem _ hx')
    refine .bind (h x (List.mem_cons_self ..)) fun o => ?_
    cases o with
    | none => exact hrest
    | some y => exact .bind hrest fun ys => .pure

/-- A loop adds what its turns add. -/
theorem foldlM {f : β → α → Step σ β} {xs : List α} {b : β} (h : ∀ x ∈ xs, ∀ b, Adds T (f b x)) : Adds T (xs.foldlM f b) := by
  induction xs generalizing b with
  | nil => exact .pure
  | cons x xs ih =>
    rw [List.foldlM_cons]
    refine .bind (h x (List.mem_cons_self ..) b) fun c => ?_
    exact ih fun x' hx' => h x' (List.mem_cons_of_mem _ hx')

end Adds

/-- A loop that only writes notes, one for each element. -/
theorem run_forIn_note (level : α → Level) (speaker : Speaker) (text : α → String) (xs : List α) (l : Ledger σ) :
    (forIn xs PUnit.unit fun x _ => do
      Step.note (level x) speaker (text x)
      return ForInStep.yield PUnit.unit : Step σ PUnit).run l =
      (.ok (), { l with notes := l.notes ++ xs.map fun x => ⟨level x, speaker, text x⟩ }) := by
  -- over all ledgers, since the first note is in the one that the others are added to
  induction xs generalizing l with
  | nil =>
    rw [List.forIn_nil, List.map_nil, List.append_nil]
    rfl
  | cons x xs ih =>
    rw [List.forIn_cons, run_bind, run_bind, run_note]
    simp only [run_pure]
    rw [ih, List.map_cons, List.append_assoc]
    rfl

end VersionAudit.Step
