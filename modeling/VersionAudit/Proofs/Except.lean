import Mathlib.Data.List.Forall2

/-!
# Computations that may fail

What a composed computation, or one whose fault is made a failure of another kind, says of its parts.
-/

namespace VersionAudit

/-- There is a list that is related element by element just if each element is related to something. -/
theorem exists_forall₂_iff {α β : Type} {R : α → β → Prop} {xs : List α} :
    (∃ ys, List.Forall₂ R xs ys) ↔ ∀ x ∈ xs, ∃ y, R x y := by
  induction xs with
  | nil => exact ⟨fun _ _ hx => absurd hx List.not_mem_nil, fun _ => ⟨[], .nil⟩⟩
  | cons x xs ih =>
    rw [List.forall_mem_cons, ← ih]
    constructor
    · rintro ⟨_, hys⟩
      obtain ⟨y, ys, hy, hys, -⟩ := List.forall₂_cons_left_iff.1 hys
      exact ⟨⟨y, hy⟩, ys, hys⟩
    · rintro ⟨⟨y, hy⟩, ys, hys⟩
      exact ⟨y :: ys, .cons hy hys⟩

theorem Except.bind_ok_iff {ε α β : Type} {x : Except ε α} {f : α → Except ε β} {b : β} :
    (x >>= f) = .ok b ↔ ∃ a, x = .ok a ∧ f a = .ok b := by
  cases x with
  | ok a => simp [bind, Except.bind]
  | error e => simp [bind, Except.bind]

theorem Except.bind_error_iff {ε α β : Type} {x : Except ε α} {f : α → Except ε β} {e : ε} :
    (x >>= f) = .error e ↔ x = .error e ∨ ∃ a, x = .ok a ∧ f a = .error e := by
  cases x with
  | ok a => simp [bind, Except.bind]
  | error e' => simp [bind, Except.bind]

/-- What is done with a value does not matter for whether there is one. -/
theorem Except.exists_bind_pure_iff {ε α β : Type} {x : Except ε α} {f : α → β} :
    (∃ b, (x >>= fun a => pure (f a)) = .ok b) ↔ ∃ a, x = .ok a := by
  simp only [bind_ok_iff]
  constructor
  · rintro ⟨_, a, ha, -⟩
    exact ⟨a, ha⟩
  · rintro ⟨a, ha⟩
    exact ⟨f a, a, ha, rfl⟩

theorem Except.map_ok_iff {ε α β : Type} {x : Except ε α} {f : α → β} {b : β} :
    x.map f = .ok b ↔ ∃ a, x = .ok a ∧ f a = b := by
  cases x with
  | ok a => simp [Except.map]
  | error e => simp [Except.map]

theorem Except.of_mapError_ok {ε δ α : Type} {f : ε → δ} {x : Except ε α} {a : α}
    (h : x.mapError f = .ok a) : x = .ok a := by
  cases x with
  | ok b => exact congrArg Except.ok (Except.ok.inj h)
  | error e => cases h

theorem Except.of_mapError_error {ε δ α : Type} {f : ε → δ} {x : Except ε α} {e : δ}
    (h : x.mapError f = .error e) : ∃ fault, e = f fault := by
  cases x with
  | ok b => cases h
  | error fault => exact ⟨fault, (Except.error.inj h).symm⟩

theorem Except.of_toOption {ε α : Type} {x : Except ε α} {a : α} (h : x.toOption = some a) : x = .ok a := by
  cases x with
  | ok b => exact congrArg Except.ok (Option.some.inj h)
  | error e => cases h

theorem Except.isSome_toOption_iff {ε α : Type} {x : Except ε α} : x.toOption.isSome = true ↔ ∃ a, x = .ok a := by
  cases x with
  | ok a => exact ⟨fun _ => ⟨a, rfl⟩, fun _ => rfl⟩
  | error e => exact ⟨fun h => (by cases h), fun ⟨_, h⟩ => (by cases h)⟩

/-- A value that is given with something else. -/
theorem Except.exists_of_toOption {ε α β : Type} {x : Except ε α × β} {a : α} (h : x.1.toOption = some a) :
    ∃ b, x = (.ok a, b) :=
  ⟨x.2, Prod.ext (of_toOption h) rfl⟩

/-- A computation over a list gives the values that it gives for the elements, one by one. -/
theorem Except.mapM_ok_iff {ε α β : Type} {f : α → Except ε β} {xs : List α} {ys : List β} :
    xs.mapM f = .ok ys ↔ List.Forall₂ (fun x y => f x = .ok y) xs ys := by
  induction xs generalizing ys with
  | nil =>
    rw [List.mapM_nil, List.forall₂_nil_left_iff]
    exact ⟨fun h => (Except.ok.inj h).symm, fun h => h ▸ rfl⟩
  | cons x xs ih =>
    -- the first element gives a value, and then the rest does
    rw [List.mapM_cons, List.forall₂_cons_left_iff, bind_ok_iff]
    constructor
    · rintro ⟨y, hy, h⟩
      obtain ⟨ys', hys, hpure⟩ := bind_ok_iff.1 h
      exact ⟨y, ys', hy, ih.1 hys, (Except.ok.inj hpure).symm⟩
    · rintro ⟨y, ys', hy, hys, rfl⟩
      exact ⟨y, hy, bind_ok_iff.2 ⟨ys', ih.2 hys, rfl⟩⟩

/-- It gives some if it does for each element. -/
theorem Except.exists_mapM_ok {ε α β : Type} {f : α → Except ε β} {xs : List α} (h : ∀ x ∈ xs, ∃ y, f x = .ok y) :
    ∃ ys, xs.mapM f = .ok ys := by
  obtain ⟨ys, hys⟩ := exists_forall₂_iff.2 h
  exact ⟨ys, mapM_ok_iff.2 hys⟩

/-- A computation over what may be absent gives a value just if there is something and it gives the value for it. -/
theorem Except.mapM_option_ok_iff {ε α β : Type} {f : α → Except ε β} {a? : Option α} {b? : Option β} :
    a?.mapM f = .ok b? ↔ Option.Rel (fun a b => f a = .ok b) a? b? := by
  cases a? with
  | none =>
    constructor
    · intro h
      obtain rfl : none = b? := Except.ok.inj h
      exact .none
    · intro h
      cases h
      rfl
  | some a =>
    have hmap : (some a).mapM f = f a >>= fun b => pure (some b) := by
      show some <$> f a = _
      cases f a <;> rfl
    rw [hmap, bind_ok_iff]
    constructor
    · rintro ⟨b, hb, hsome⟩
      obtain rfl : some b = b? := Except.ok.inj hsome
      exact .some hb
    · intro h
      cases h with
      | some hb => exact ⟨_, hb, rfl⟩

/-- There is a value just if there is one for what is there. -/
theorem Except.exists_mapM_option_iff {ε α β : Type} {f : α → Except ε β} {a? : Option α} :
    (∃ b?, a?.mapM f = .ok b?) ↔ ∀ a ∈ a?, ∃ b, f a = .ok b := by
  simp only [mapM_option_ok_iff]
  cases a? with
  | none => exact ⟨fun _ _ ha => absurd ha (Option.not_mem_none _), fun _ => ⟨none, .none⟩⟩
  | some a =>
    constructor
    · rintro ⟨_, hrel⟩ _ ⟨⟩
      cases hrel with
      | some hb => exact ⟨_, hb⟩
    · intro h
      obtain ⟨b, hb⟩ := h a rfl
      exact ⟨some b, .some hb⟩

end VersionAudit
