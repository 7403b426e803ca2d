import Mathlib.Data.List.Basic
import VersionAudit.Step

/-!
# Reasoning about steps

1. What each way of building a step does to a ledger: `run_pure`, `run_bind` and so on, and `run_bind_ok_iff`
   to take apart a run that gave a value.
2. `Ensures`: an invariant of the state that a step keeps, with what is known of the value it gives. There is
   one rule for each way of building a step.
3. `RunsAll`: a step run for each element of a list, one after the other.
-/

namespace VersionAudit.Step

variable {σ τ α β γ : Type}

/-! ## Runs -/

@[simp] theorem run_pure (a : α) (l : Ledger σ) : (pure a : Step σ α).run l = (.ok a, l) := rfl

@[simp] theorem run_fail (e : Failure) (l : Ledger σ) : (fail e : Step σ α).run l = (.error e, l) := rfl

@[simp] theorem run_note (level : Level) (speaker : Speaker) (text : String) (l : Ledger σ) :
    (note level speaker text : Step σ Unit).run l =
      (.ok (), { l with notes := l.notes ++ [⟨level, speaker, text⟩] }) := rfl

@[simp] theorem run_warn (text : String) (l : Ledger σ) :
    (warn text : Step σ Unit).run l =
      (.ok (), { l with notes := l.notes ++ [⟨.warning, .engine, text⟩] }) := rfl

@[simp] theorem run_read (l : Ledger σ) : (read : Step σ σ).run l = (.ok l.state, l) := rfl

@[simp] theorem run_write (s : σ) (l : Ledger σ) :
    (write s : Step σ Unit).run l = (.ok (), { l with state := s }) := rfl

@[simp] theorem run_get (l : Ledger σ) : (get : Step σ (Ledger σ)).run l = (.ok l, l) := rfl

@[simp] theorem run_set (l' l : Ledger σ) : (set l' : Step σ PUnit).run l = (.ok (), l') := rfl

@[simp] theorem run_ofExcept (x : Except Failure α) (l : Ledger σ) : (ofExcept x : Step σ α).run l = (x, l) := by
  cases x <;> rfl

@[simp] theorem run_outcome (step : Step σ α) (l : Ledger σ) :
    step.outcome.run l = (.ok (step.run l).1, (step.run l).2) := rfl

theorem run_within (get : τ → σ) (put : σ → τ → τ) (step : Step σ α) (l : Ledger τ) :
    (step.within get put).run l =
      ((step.run ⟨get l.state, l.notes⟩).1,
        ⟨put (step.run ⟨get l.state, l.notes⟩).2.state l.state, (step.run ⟨get l.state, l.notes⟩).2.notes⟩) :=
  rfl

/-- A composed step runs its second part on what the first one leaves, unless that one fails. -/
theorem run_bind (step : Step σ α) (f : α → Step σ β) (l : Ledger σ) :
    (step >>= f).run l =
      match step.run l with
      | (.ok a, l') => (f a).run l'
      | (.error e, l') => (.error e, l') := by
  simp only [run, ExceptT.run, StateT.run, bind, ExceptT.bind, ExceptT.mk, StateT.bind, ExceptT.bindCont]
  rcases h : step l with ⟨r, l'⟩
  cases r <;> rfl

/-- A composed step gives a value if its first part gives one and the second part, run on what that leaves,
gives the value. -/
theorem run_bind_ok_iff {step : Step σ α} {f : α → Step σ β} {l l' : Ledger σ} {b : β} :
    (step >>= f).run l = (.ok b, l') ↔ ∃ a m, step.run l = (.ok a, m) ∧ (f a).run m = (.ok b, l') := by
  rw [run_bind]
  rcases step.run l with ⟨r, m⟩
  cases r with
  | ok a => simp
  | error e => simp

/-- A composed step fails if its first part fails, or its second part on what the first one leaves. -/
theorem run_bind_error_iff {step : Step σ α} {f : α → Step σ β} {l l' : Ledger σ} {e : Failure} :
    (step >>= f).run l = (.error e, l') ↔
      step.run l = (.error e, l') ∨ ∃ a m, step.run l = (.ok a, m) ∧ (f a).run m = (.error e, l') := by
  rw [run_bind]
  rcases step.run l with ⟨r, m⟩
  cases r with
  | ok a => simp
  | error e => simp

/-! ## What a step ensures -/

/-- From a state with `I` the step leaves a state with `I`, also if it fails, and the value it gives has `Q`. -/
def Ensures (I : σ → Prop) (step : Step σ α) (Q : α → Prop) : Prop :=
  ∀ l, I l.state → I (step.run l).2.state ∧ ∀ a, (step.run l).1 = .ok a → Q a

namespace Ensures

/-- Of any step it can be said that it ends somehow. -/
theorem of_forall {step : Step σ α} {Q : α → Prop} (h : ∀ a, Q a) : Ensures (fun _ => True) step Q :=
  fun _ _ => ⟨trivial, fun a _ => h a⟩

variable {I : σ → Prop} {Q : α → Prop} {R : β → Prop}

theorem pure {a : α} (h : Q a) : Ensures I (Pure.pure a) Q := by
  intro l hl
  refine ⟨hl, fun b hb => ?_⟩
  obtain rfl := Except.ok.inj hb
  exact h

theorem fail {e : Failure} : Ensures I (Step.fail e) Q :=
  fun _ hl => ⟨hl, fun _ hb => by cases hb⟩

theorem warn {text : String} : Ensures I (Step.warn text) fun _ => True :=
  fun _ hl => ⟨hl, fun _ _ => trivial⟩

theorem ofExcept {x : Except Failure α} (h : ∀ a, x = .ok a → Q a) : Ensures I (Step.ofExcept x) Q := by
  intro l hl
  rw [run_ofExcept]
  exact ⟨hl, h⟩

theorem mono {Q' : α → Prop} {step : Step σ α} (h : Ensures I step Q) (hQ : ∀ a, Q a → Q' a) :
    Ensures I step Q' :=
  fun l hl => ⟨(h l hl).1, fun a ha => hQ a ((h l hl).2 a ha)⟩

/-- A composed step ensures what its second part does for any value that the first one may give. -/
theorem bind {step : Step σ α} {f : α → Step σ β} (h : Ensures I step Q) (hf : ∀ a, Q a → Ensures I (f a) R) :
    Ensures I (step >>= f) R := by
  intro l hl
  rw [run_bind]
  rcases h l hl with ⟨hI, hQ⟩
  rcases hrun : step.run l with ⟨r, m⟩
  rw [hrun] at hI hQ
  -- the state is kept by both parts, and by the first one alone if it fails
  cases r with
  | ok a => exact hf a (hQ a rfl) m hI
  | error e => exact ⟨hI, fun b hb => by cases hb⟩

/-- A step with its failure caught ensures the same of the value, if there is one. -/
theorem outcome {step : Step σ α} (h : Ensures I step Q) :
    Ensures I step.outcome fun r => ∀ a, r = .ok a → Q a := by
  intro l hl
  refine ⟨(h l hl).1, fun r hr => ?_⟩
  obtain rfl := Except.ok.inj hr
  exact (h l hl).2

/-- A step run for each element of a list ensures of each value what it ensures of one. -/
theorem mapM {f : α → Step σ β} {xs : List α} (h : ∀ x ∈ xs, Ensures I (f x) R) :
    Ensures I (xs.mapM f) fun ys => ∀ y ∈ ys, R y := by
  induction xs with
  | nil => exact .pure (by simp)
  | cons x xs ih =>
    rw [List.mapM_cons]
    refine .bind (h x (List.mem_cons_self ..)) fun y hy => ?_
    refine .bind (ih fun x' hx' => h x' (List.mem_cons_of_mem _ hx')) fun ys hys => ?_
    exact .pure (List.forall_mem_cons.2 ⟨hy, hys⟩)

/-- The same when only some of the values are kept. -/
theorem filterMapM {f : α → Step σ (Option β)} {xs : List α}
    (h : ∀ x ∈ xs, Ensures I (f x) fun o => ∀ y, o = some y → R y) :
    Ensures I (xs.filterMapM f) fun ys => ∀ y ∈ ys, R y := by
  induction xs with
  | nil => exact .pure (by simp)
  | cons x xs ih =>
    rw [List.filterMapM_cons]
    have hrest := ih fun x' hx' => h x' (List.mem_cons_of_mem _ hx')
    refine .bind (h x (List.mem_cons_self ..)) fun o ho => ?_
    -- a value that is left out adds nothing
    cases o with
    | none => exact hrest
    | some y =>
      refine .bind hrest fun ys hys => ?_
      exact .pure (List.forall_mem_cons.2 ⟨ho y rfl, hys⟩)

/-- A loop keeps what each turn keeps, told of the elements that the loop is done with. -/
theorem foldlM_upTo {f : β → α → Step σ β} {xs : List α} {b : β} {S : List α → β → Prop}
    (h : ∀ done, ∀ x ∈ xs, ∀ b, S done b → Ensures I (f b x) (S (done ++ [x]))) (hb : S [] b) :
    Ensures I (xs.foldlM f b) (S xs) := by
  -- the induction is on what is still to be done, so that what is done can grow at its end
  suffices hrest : ∀ todo done b, (∀ x ∈ todo, x ∈ xs) → S done b → Ensures I (todo.foldlM f b) (S (done ++ todo)) from
    hrest xs [] b (fun _ hx => hx) hb
  intro todo
  induction todo with
  | nil =>
    intro done b _ hb
    rw [List.append_nil]
    exact .pure hb
  | cons x todo ih =>
    intro done b htodo hb
    rw [List.foldlM_cons, List.append_cons]
    refine .bind (h done x (htodo x (List.mem_cons_self ..)) b hb) fun c hc => ?_
    exact ih _ c (fun y hy => htodo y (List.mem_cons_of_mem _ hy)) hc

end Ensures

/-! ## Runs over a list -/

/-- The step `f`, run for the elements of a list one after the other from a ledger, gives the values and leaves
the ledger. -/
inductive RunsAll (f : α → Step σ β) : List α → Ledger σ → List β → Ledger σ → Prop
  | nil (l : Ledger σ) : RunsAll f [] l [] l
  | cons {x : α} {xs : List α} {y : β} {ys : List β} {l m l' : Ledger σ} (head : (f x).run l = (.ok y, m))
      (tail : RunsAll f xs m ys l') : RunsAll f (x :: xs) l (y :: ys) l'

/-- Running a step for all elements gives the values exactly when it runs from each to the next. -/
theorem run_mapM_ok_iff {f : α → Step σ β} {xs : List α} {ys : List β} {l l' : Ledger σ} :
    (xs.mapM f).run l = (.ok ys, l') ↔ RunsAll f xs l ys l' := by
  -- from each ledger, as every element is run from the ledger that the one before left
  induction xs generalizing l ys with
  | nil =>
    rw [List.mapM_nil, run_pure]
    constructor
    · intro h
      cases h
      exact .nil _
    · rintro ⟨⟩
      rfl
  | cons x xs ih =>
    simp only [List.mapM_cons, run_bind_ok_iff, run_pure]
    constructor
    · rintro ⟨y, m, hy, zs, n, hzs, h⟩
      cases h
      exact .cons hy (ih.1 hzs)
    · rintro (_ | ⟨hy, hys⟩)
      exact ⟨_, _, hy, _, _, ih.2 hys, rfl⟩

theorem RunsAll.length_eq {f : α → Step σ β} {xs : List α} {ys : List β} {l l' : Ledger σ} (h : RunsAll f xs l ys l') :
    ys.length = xs.length := by
  induction h with
  | nil l => rfl
  | cons _ _ ih => rw [List.length_cons, List.length_cons, ih]

/-- A step that never fails gives a value for each element. -/
theorem exists_runsAll {f : α → Step σ β} (h : ∀ x l, ∃ y m, (f x).run l = (.ok y, m)) (xs : List α) (l : Ledger σ) :
    ∃ ys l', RunsAll f xs l ys l' := by
  induction xs generalizing l with
  | nil => exact ⟨[], l, .nil l⟩
  | cons x xs ih =>
    obtain ⟨y, m, hy⟩ := h x l
    obtain ⟨ys, l', hys⟩ := ih m
    exact ⟨y :: ys, l', .cons hy hys⟩

/-- What each turn of a loop that gives a value keeps, a whole loop that gives one keeps. -/
theorem run_foldlM_ok {f : β → α → Step σ β} {xs : List α} {R : β → Ledger σ → Prop}
    (h : ∀ x ∈ xs, ∀ b l b' l', R b l → (f b x).run l = (.ok b', l') → R b' l') {b b' : β} {l l' : Ledger σ}
    (hb : R b l) (hrun : (xs.foldlM f b).run l = (.ok b', l')) : R b' l' := by
  induction xs generalizing b l with
  | nil =>
    cases hrun
    exact hb
  | cons x xs ih =>
    rw [List.foldlM_cons] at hrun
    obtain ⟨b₁, l₁, hfirst, hrest⟩ := run_bind_ok_iff.1 hrun
    refine ih (fun x' hx' => h x' (List.mem_cons_of_mem _ hx')) ?_ hrest
    exact h x (List.mem_cons_self ..) b l b₁ l₁ hb hfirst

/-- If a turn of one loop that gives a value is followed by a turn of another one, so is the whole loop. -/
theorem exists_run_foldlM {f : β → α → Step σ β} {g : γ → α → Step τ γ} {xs : List α}
    {R : β → Ledger σ → γ → Ledger τ → Prop}
    (h : ∀ x ∈ xs, ∀ b l c k b' l', R b l c k → (f b x).run l = (.ok b', l') →
      ∃ c' k', (g c x).run k = (.ok c', k') ∧ R b' l' c' k')
    {b b' : β} {c : γ} {l l' : Ledger σ} {k : Ledger τ} (hb : R b l c k)
    (hrun : (xs.foldlM f b).run l = (.ok b', l')) :
    ∃ c' k', (xs.foldlM g c).run k = (.ok c', k') ∧ R b' l' c' k' := by
  induction xs generalizing b l c k with
  | nil =>
    cases hrun
    exact ⟨c, k, rfl, hb⟩
  | cons x xs ih =>
    rw [List.foldlM_cons] at hrun ⊢
    obtain ⟨b₁, l₁, hfirst, hrest⟩ := run_bind_ok_iff.1 hrun
    -- the first turn is followed by one that leaves the two related, from which the rest goes on
    obtain ⟨c₁, k₁, hfollows, hR⟩ := h x (List.mem_cons_self ..) b l c k b₁ l₁ hb hfirst
    obtain ⟨c', k', hlast, hR'⟩ := ih (fun x' hx' => h x' (List.mem_cons_of_mem _ hx')) hR hrest
    exact ⟨c', k', run_bind_ok_iff.2 ⟨c₁, k₁, hfollows, hlast⟩, hR'⟩

/-- A step that keeps `I` and, as long as the state has it, gives the same for an element whenever it is run, gives
the same for a list. -/
theorem run_mapM_of_constant {I : σ → Prop} {f : α → Step σ β} {g : α → β}
    (h : ∀ x l, I l.state → ((f x).run l).1 = .ok (g x) ∧ I ((f x).run l).2.state) (xs : List α) {l : Ledger σ}
    (hl : I l.state) : ∃ l', (xs.mapM f).run l = (.ok (xs.map g), l') ∧ I l'.state := by
  induction xs generalizing l with
  | nil => exact ⟨l, rfl, hl⟩
  | cons x xs ih =>
    -- the invariant carries over to the ledger on which the rest is run
    obtain ⟨hx, hm⟩ := h x l hl
    rcases hfirst : (f x).run l with ⟨r, m⟩
    rw [hfirst] at hx hm
    obtain ⟨l', hrest, hl'⟩ := ih hm
    refine ⟨l', ?_, hl'⟩
    dsimp only at hx
    rw [List.mapM_cons, run_bind, hfirst, hx]
    dsimp only
    rw [run_bind, hrest]
    rfl

/-- The elements of a list, each with the ledger that the step finds when it is run for it. -/
def starts (f : α → Step σ β) : List α → Ledger σ → List (α × Ledger σ)
  | [], _ => []
  | x :: xs, l => (x, l) :: starts f xs ((f x).run l).2

/-- Every element of the list starts once. -/
theorem map_fst_starts (f : α → Step σ β) (xs : List α) (l : Ledger σ) : (starts f xs l).map (·.1) = xs := by
  induction xs generalizing l with
  | nil => rfl
  | cons x xs ih =>
    unfold starts
    rw [List.map_cons, ih]

/-- What the step keeps, each of them is found with. -/
theorem starts_keep {I : σ → Prop} {f : α → Step σ β} (h : ∀ x l, I l.state → I ((f x).run l).2.state) {xs : List α}
    {l : Ledger σ} (hl : I l.state) {x : α} {k : Ledger σ} (hk : (x, k) ∈ starts f xs l) : I k.state := by
  induction xs generalizing l with
  | nil => cases hk
  | cons y ys ih =>
    unfold starts at hk
    rcases List.mem_cons.1 hk with heq | hk
    · cases heq
      exact hl
    · exact ih (h y l hl) hk

/-- Each value is what the step gives from the ledger it finds. -/
theorem RunsAll.map_ok {f : α → Step σ β} {xs : List α} {ys : List β} {l l' : Ledger σ} (h : RunsAll f xs l ys l') :
    ys.map .ok = (starts f xs l).map fun x => ((f x.1).run x.2).1 := by
  induction h with
  | nil l => rfl
  | cons head tail ih =>
    unfold starts
    rw [List.map_cons, List.map_cons, head, ih]

/-- Each value was given for some element, from the ledger found for it. -/
theorem RunsAll.exists_start {f : α → Step σ β} {xs : List α} {ys : List β} {l l' : Ledger σ}
    (h : RunsAll f xs l ys l') {y : β} (hy : y ∈ ys) : ∃ x k, (x, k) ∈ starts f xs l ∧ ((f x).run k).1 = .ok y := by
  induction h with
  | nil l => simp at hy
  | cons head tail ih =>
    rename_i x xs y' ys l m l'
    unfold starts
    rw [head]
    rcases List.mem_cons.1 hy with rfl | hy
    · exact ⟨x, l, List.mem_cons_self .., by rw [head]⟩
    · rcases ih hy with ⟨x', k, hk, hrun⟩
      exact ⟨x', k, List.mem_cons_of_mem _ hk, hrun⟩

/-- For each element, what was given from the ledger found for it is among the values. -/
theorem RunsAll.exists_value {f : α → Step σ β} {xs : List α} {ys : List β} {l l' : Ledger σ}
    (h : RunsAll f xs l ys l') {x : α} {k : Ledger σ} (hk : (x, k) ∈ starts f xs l) :
    ∃ y ∈ ys, ((f x).run k).1 = .ok y := by
  induction h with
  | nil l => simp [starts] at hk
  | cons head tail ih =>
    rename_i x' xs y ys l m l'
    unfold starts at hk
    rw [head] at hk
    -- the ledger is that of the first element, or of one behind it
    rcases List.mem_cons.1 hk with heq | hk
    · cases heq
      exact ⟨y, List.mem_cons_self .., by rw [head]⟩
    · rcases ih hk with ⟨y', hy', hrun⟩
      exact ⟨y', List.mem_cons_of_mem _ hy', hrun⟩

/-- A step that never fails, run for the elements of a list. Each value is kept that the step gives for some
element. -/
theorem exists_run_filterMapM {f : α → Step σ (Option β)} {P : α → Option β → Prop}
    (h : ∀ x l, ∃ o l', (f x).run l = (.ok o, l') ∧ P x o) (xs : List α) (l : Ledger σ) :
    ∃ ys l', (xs.filterMapM f).run l = (.ok ys, l') ∧ (∀ y ∈ ys, ∃ x ∈ xs, P x (some y)) ∧
      ∀ x ∈ xs, P x none ∨ ∃ y ∈ ys, P x (some y) := by
  induction xs generalizing l with
  | nil => exact ⟨[], l, rfl, by simp, by simp⟩
  | cons x xs ih =>
    rcases h x l with ⟨o, m, hx, hP⟩
    rcases ih m with ⟨ys, l', hxs, hsound, hcomplete⟩
    rw [List.filterMapM_cons, run_bind, hx]
    cases o with
    -- no value for the first element: it has to be known for that one, the rest is as before
    | none =>
      refine ⟨ys, l', hxs, ?_, ?_⟩
      · intro y hy
        rcases hsound y hy with ⟨x', hx', hP'⟩
        exact ⟨x', List.mem_cons_of_mem _ hx', hP'⟩
      · exact List.forall_mem_cons.2 ⟨.inl hP, hcomplete⟩
    | some y =>
      refine ⟨y :: ys, l', ?_, ?_, ?_⟩
      · simp only [run_bind, hxs]
        rfl
      · refine List.forall_mem_cons.2 ⟨⟨x, List.mem_cons_self .., hP⟩, ?_⟩
        intro y' hy'
        rcases hsound y' hy' with ⟨x', hx', hP'⟩
        exact ⟨x', List.mem_cons_of_mem _ hx', hP'⟩
      · refine List.forall_mem_cons.2 ⟨.inr ⟨y, List.mem_cons_self .., hP⟩, ?_⟩
        intro x' hx'
        rcases hcomplete x' hx' with hnone | ⟨y', hy', hP'⟩
        · exact .inl hnone
        · exact .inr ⟨y', List.mem_cons_of_mem _ hy', hP'⟩

end VersionAudit.Step
