import VersionAudit.Proofs.Step

/-!
# Two runs of steps

Two steps are related if, run from ledgers that a relation links, they leave ledgers that it links again, and end
alike: both with values that belong together, or both with the same failure. There is one rule for each way of
building a step. A step related to itself gives the same from all linked ledgers, whatever else differs in them.
-/

namespace VersionAudit.Step

variable {σ τ α β γ δ : Type}

/-- Both computations give a value, and the values are related, or both fail in the same way. -/
inductive Alike (S : α → β → Prop) : Except Failure α → Except Failure β → Prop
  | ok {a : α} {b : β} (h : S a b) : Alike S (.ok a) (.ok b)
  | error (failure : Failure) : Alike S (.error failure) (.error failure)

theorem Alike.mono {S S' : α → β → Prop} {x : Except Failure α} {y : Except Failure β} (h : Alike S x y)
    (hS : ∀ a b, S a b → S' a b) : Alike S' x y := by
  cases h with
  | ok h => exact .ok (hS _ _ h)
  | error failure => exact .error failure

theorem Alike.eq {x y : Except Failure α} (h : Alike Eq x y) : x = y := by
  cases h with
  | ok h => rw [h]
  | error failure => rfl

theorem alike_self (x : Except Failure α) : Alike Eq x x := by
  cases x with
  | ok a => exact .ok rfl
  | error failure => exact .error failure

/-- From ledgers that `R` links the steps leave such ledgers, and end alike. -/
def Related (R : Ledger σ → Ledger τ → Prop) (x : Step σ α) (y : Step τ β) (S : α → β → Prop) : Prop :=
  ∀ l k, R l k → R (x.run l).2 (y.run k).2 ∧ Alike S (x.run l).1 (y.run k).1

namespace Related

variable {R : Ledger σ → Ledger τ → Prop} {S : α → β → Prop} {T : γ → δ → Prop}

theorem pure {a : α} {b : β} (h : S a b) : Related R (Pure.pure a) (Pure.pure b) S :=
  fun _ _ hlk => ⟨hlk, .ok h⟩

theorem fail {failure : Failure} : Related R (Step.fail failure) (Step.fail failure) S :=
  fun _ _ hlk => ⟨hlk, .error failure⟩

theorem ofExcept {x : Except Failure α} {y : Except Failure β} (h : Alike S x y) :
    Related R (Step.ofExcept x) (Step.ofExcept y) S := by
  intro l k hlk
  rw [run_ofExcept, run_ofExcept]
  exact ⟨hlk, h⟩

theorem mono {S' : α → β → Prop} {x : Step σ α} {y : Step τ β} (h : Related R x y S) (hS : ∀ a b, S a b → S' a b) :
    Related R x y S' :=
  fun l k hlk => ⟨(h l k hlk).1, (h l k hlk).2.mono hS⟩

/-- Composed steps are related if their first parts are, and their second parts for any related values. -/
theorem bind {x : Step σ α} {y : Step τ β} {f : α → Step σ γ} {g : β → Step τ δ} (h : Related R x y S)
    (hfg : ∀ a b, S a b → Related R (f a) (g b) T) : Related R (x >>= f) (y >>= g) T := by
  intro l k hlk
  rw [run_bind, run_bind]
  obtain ⟨hleft, halike⟩ := h l k hlk
  rcases hx : x.run l with ⟨r, m⟩
  rcases hy : y.run k with ⟨q, n⟩
  rw [hx, hy] at hleft halike
  cases halike with
  | ok hS => exact hfg _ _ hS m n hleft
  | error failure => exact ⟨hleft, .error failure⟩

theorem outcome {x : Step σ α} {y : Step τ β} (h : Related R x y S) : Related R x.outcome y.outcome (Alike S) :=
  fun l k hlk => ⟨(h l k hlk).1, .ok (h l k hlk).2⟩

theorem set {l : Ledger σ} {k : Ledger τ} (h : R l k) :
    Related R (MonadState.set l : Step σ PUnit) (MonadState.set k : Step τ PUnit) Eq :=
  fun _ _ _ => ⟨h, .ok rfl⟩

theorem get : Related R (MonadState.get : Step σ (Ledger σ)) (MonadState.get : Step τ (Ledger τ)) R :=
  fun _ _ hlk => ⟨hlk, .ok hlk⟩

/-- From one and the same ledger a step does the same twice. -/
theorem refl (x : Step σ α) : Related Eq x x Eq := by
  rintro l _ rfl
  exact ⟨rfl, alike_self _⟩

/-- What is known of every value that a step gives from linked ledgers is known of the two values of two runs. -/
theorem and_of_run {P : Ledger σ → Ledger σ → Prop} {x : Step σ α} {Q : α → Prop} (h : Related P x x Eq)
    (hQ : ∀ l k a l', P l k → x.run l = (.ok a, l') → Q a) : Related P x x fun a b => a = b ∧ Q a := by
  intro l k hlk
  obtain ⟨hleft, halike⟩ := h l k hlk
  refine ⟨hleft, ?_⟩
  rcases hx : x.run l with ⟨r, l'⟩
  rw [hx] at halike
  rw [← halike.eq]
  cases r with
  | ok a => exact .ok ⟨rfl, hQ l k a l' hlk hx⟩
  | error failure => exact .error failure

theorem and_known {P : Ledger σ → Ledger σ → Prop} {x : Step σ α} {Q : α → Prop} (h : Related P x x Eq)
    (hQ : ∀ l a l', x.run l = (.ok a, l') → Q a) : Related P x x fun a b => a = b ∧ Q a :=
  h.and_of_run fun l _ a l' _ hrun => hQ l a l' hrun

/-- Two loops over the same list are related if they are for each element. -/
theorem mapM {ι : Type} {f : ι → Step σ α} {g : ι → Step τ β} {xs : List ι} (h : ∀ x ∈ xs, Related R (f x) (g x) S) :
    Related R (xs.mapM f) (xs.mapM g) (List.Forall₂ S) := by
  induction xs with
  | nil => exact .pure .nil
  | cons x xs ih =>
    rw [List.mapM_cons, List.mapM_cons]
    refine .bind (h x (List.mem_cons_self ..)) fun a b hab => ?_
    refine .bind (ih fun x' hx' => h x' (List.mem_cons_of_mem _ hx')) fun as bs hall => ?_
    exact .pure (.cons hab hall)

/-- The same of loops that keep some of the values: they have to keep those of the same elements. -/
theorem filterMapM {ι : Type} {f : ι → Step σ (Option α)} {g : ι → Step τ (Option β)} {xs : List ι}
    (h : ∀ x ∈ xs, Related R (f x) (g x) (Option.Rel S)) :
    Related R (xs.filterMapM f) (xs.filterMapM g) (List.Forall₂ S) := by
  induction xs with
  | nil => exact .pure .nil
  | cons x xs ih =>
    rw [List.filterMapM_cons, List.filterMapM_cons]
    have hrest := ih fun x' hx' => h x' (List.mem_cons_of_mem _ hx')
    refine .bind (h x (List.mem_cons_self ..)) fun a b hab => ?_
    -- both turns keep a value, or neither does
    cases hab with
    | none => exact hrest
    | some hab =>
      refine .bind hrest fun as bs hall => ?_
      exact .pure (.cons hab hall)

/-- Two loops over the same list that carry values along, told of the elements that they are done with. -/
theorem foldlM_upTo {ι : Type} {f : α → ι → Step σ α} {g : β → ι → Step τ β} {xs : List ι} {S : List ι → α → β → Prop}
    (h : ∀ done x, done ++ [x] <+: xs → ∀ a b, S done a b → Related R (f a x) (g b x) (S (done ++ [x]))) {a : α} {b : β}
    (hab : S [] a b) : Related R (xs.foldlM f a) (xs.foldlM g b) (S xs) := by
  -- the induction is on what is still to be done, so that what is done can grow at its end
  suffices hrest : ∀ todo done a b, done ++ todo = xs → S done a b →
      Related R (todo.foldlM f a) (todo.foldlM g b) (S xs) from hrest xs [] a b rfl hab
  intro todo
  induction todo with
  | nil =>
    rintro done a b rfl hab
    rw [List.append_nil]
    exact .pure hab
  | cons x todo ih =>
    intro done a b hxs hab
    rw [List.append_cons] at hxs
    rw [List.foldlM_cons, List.foldlM_cons]
    exact .bind (h done x ⟨todo, hxs⟩ a b hab) fun a' b' hab' => ih (done ++ [x]) a' b' hxs hab'

theorem foldlM {ι : Type} {f : α → ι → Step σ α} {g : β → ι → Step τ β} {xs : List ι}
    (h : ∀ x ∈ xs, ∀ a b, S a b → Related R (f a x) (g b x) S) {a : α} {b : β} (hab : S a b) :
    Related R (xs.foldlM f a) (xs.foldlM g b) S :=
  foldlM_upTo (S := fun _ => S) (fun _ x hx => h x (hx.subset (by simp))) hab

end Related

end VersionAudit.Step
