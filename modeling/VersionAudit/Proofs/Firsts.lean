import Mathlib.Data.List.Induction

/-!
# The first of each kind

Going through a list and keeping what is not yet kept: of elements of the same kind the first one stays. Requests,
names, versions and messages are all made distinct in this way.
-/

namespace VersionAudit

variable {α : Type}

/-- Keeps an element unless one of its kind is kept already. -/
def keepNew (same : α → α → Bool) (kept : List α) (x : α) : List α :=
  if kept.any (same · x) then kept else kept ++ [x]

/-- The elements of which none of the same kind comes before them. -/
def firstsBy (same : α → α → Bool) (xs : List α) : List α :=
  xs.foldl (keepNew same) []

/-- An element is kept at the end, or it is not kept. -/
theorem keepNew_eq (same : α → α → Bool) (kept : List α) (x : α) :
    keepNew same kept x = kept ∨ keepNew same kept x = kept ++ [x] := by
  unfold keepNew
  split
  · exact .inl rfl
  · exact .inr rfl

/-- Going on adds to what is kept. -/
theorem foldl_keepNew (same : α → α → Bool) (xs kept : List α) :
    ∃ more, xs.foldl (keepNew same) kept = kept ++ more ∧ ∀ x ∈ more, x ∈ xs := by
  induction xs generalizing kept with
  | nil => exact ⟨[], by simp, by simp⟩
  | cons x xs ih =>
    rw [List.foldl_cons]
    rcases keepNew_eq same kept x with hstep | hstep <;> rw [hstep]
    · rcases ih kept with ⟨more, heq, hmem⟩
      exact ⟨more, heq, fun y hy => List.mem_cons_of_mem _ (hmem y hy)⟩
    · rcases ih (kept ++ [x]) with ⟨more, heq, hmem⟩
      refine ⟨x :: more, by simpa using heq, ?_⟩
      intro y hy
      rcases List.mem_cons.1 hy with rfl | hy
      · exact List.mem_cons_self ..
      · exact List.mem_cons_of_mem _ (hmem y hy)

theorem mem_of_mem_firstsBy {same : α → α → Bool} {xs : List α} {x : α} (h : x ∈ firstsBy same xs) : x ∈ xs := by
  rcases foldl_keepNew same xs [] with ⟨more, heq, hmem⟩
  unfold firstsBy at h
  rw [heq] at h
  exact hmem x (by simpa using h)

/-- After an element was kept or not, there is one that is the same. -/
theorem exists_mem_keepNew {same : α → α → Bool} (hrefl : ∀ x, same x x = true) (kept : List α) (x : α) :
    ∃ y ∈ keepNew same kept x, same y x = true := by
  unfold keepNew
  split
  · rename_i hany
    exact List.any_eq_true.1 hany
  · exact ⟨x, by simp, hrefl x⟩

/-- Every element has one of its kind among those kept. -/
theorem exists_mem_firstsBy {same : α → α → Bool} (hrefl : ∀ x, same x x = true) {xs : List α} {x : α}
    (h : x ∈ xs) : ∃ y ∈ firstsBy same xs, same y x = true := by
  suffices hkept : ∀ kept, ∃ y ∈ xs.foldl (keepNew same) kept, same y x = true from hkept []
  induction xs with
  | nil => simp at h
  | cons z xs ih =>
    intro kept
    rw [List.foldl_cons]
    rcases List.mem_cons.1 h with rfl | h
    · -- the element itself or one of its kind is kept now, and stays
      rcases exists_mem_keepNew hrefl kept x with ⟨y, hy, hsame⟩
      rcases foldl_keepNew same xs (keepNew same kept x) with ⟨more, heq, -⟩
      rw [heq]
      exact ⟨y, List.mem_append_left _ hy, hsame⟩
    · exact ih h _

/-- No two of the same kind are kept. -/
theorem pairwise_firstsBy (same : α → α → Bool) (xs : List α) :
    (firstsBy same xs).Pairwise fun x y => same x y = false := by
  unfold firstsBy
  refine List.foldlRecOn _ _ List.Pairwise.nil ?_
  intro kept hkept x _
  unfold keepNew
  split
  · exact hkept
  · rename_i hnew
    rw [List.pairwise_append]
    refine ⟨hkept, List.pairwise_singleton .., ?_⟩
    intro y hy z hz
    obtain rfl := List.mem_singleton.1 hz
    exact Bool.eq_false_iff.2 fun hsame => hnew (List.any_eq_true.2 ⟨y, hy, hsame⟩)

/-- The last element is the last one that may be kept. -/
theorem firstsBy_concat (same : α → α → Bool) (xs : List α) (x : α) :
    firstsBy same (xs ++ [x]) = keepNew same (firstsBy same xs) x := by
  unfold firstsBy
  rw [List.foldl_append]
  rfl

/-- What comes later adds to what is kept. -/
theorem firstsBy_append (same : α → α → Bool) (xs ys : List α) :
    ∃ more, firstsBy same (xs ++ ys) = firstsBy same xs ++ more ∧ ∀ y ∈ more, y ∈ ys := by
  unfold firstsBy
  rw [List.foldl_append]
  exact foldl_keepNew same ys _

theorem prefix_firstsBy (same : α → α → Bool) {xs ys : List α} (h : xs <+: ys) :
    firstsBy same xs <+: firstsBy same ys := by
  rcases h with ⟨rest, rfl⟩
  rcases firstsBy_append same xs rest with ⟨more, hmore, -⟩
  exact ⟨more, hmore.symm⟩

/-- The first element with a property is kept, if elements of the same kind share the property. -/
theorem find?_firstsBy {same : α → α → Bool} {p : α → Bool} (hp : ∀ x y, same x y = true → p x = p y) (xs : List α) :
    (firstsBy same xs).find? p = xs.find? p := by
  induction xs using List.reverseRecOn with
  | nil => rfl
  | append_singleton xs x ih =>
    rw [firstsBy_concat, List.find?_append, ← ih]
    unfold keepNew
    split
    · rename_i hany
      cases hfind : (firstsBy same xs).find? p with
      | some y => rfl
      | none =>
        -- one of the kind of `x` is kept already, and lacks the property
        rcases List.any_eq_true.1 hany with ⟨y, hy, hsame⟩
        have hx : p x = false := by
          rw [← hp y x hsame]
          exact Bool.eq_false_iff.2 (List.find?_eq_none.1 hfind y hy)
        simp [hx]
    · rw [List.find?_append]

section Relabelling

variable {β : Type} {same : β → β → Bool} {same' : α → α → Bool} {f : α → β} (h : ∀ x y, same (f x) (f y) = same' x y)

include h

/-- Elements may be mapped before or after, if the mapping keeps which ones are the same. -/
theorem keepNew_map (kept : List α) (x : α) : keepNew same (kept.map f) (f x) = (keepNew same' kept x).map f := by
  unfold keepNew
  simp only [List.any_map, Function.comp_def, h]
  split
  · rfl
  · rw [List.map_append, List.map_singleton]

/-- A relabelling that keeps the kinds may be made before or after. -/
theorem firstsBy_map (xs : List α) : firstsBy same (xs.map f) = (firstsBy same' xs).map f := by
  induction xs using List.reverseRecOn with
  | nil => rfl
  | append_singleton xs x ih =>
    rw [List.map_append, List.map_singleton, firstsBy_concat, firstsBy_concat, ih, keepNew_map h]

end Relabelling

section Keys

variable {κ : Type} [BEq κ] (f : α → κ)

/-- The first elements of each key have the first keys. -/
theorem map_firstsBy (xs : List α) :
    (firstsBy (fun x y => f x == f y) xs).map f = firstsBy (· == ·) (xs.map f) := by
  have hsame : ∀ x y, (f x == f y) = (fun x y => f x == f y) x y := fun _ _ => rfl
  exact (firstsBy_map hsame xs).symm

variable [LawfulBEq κ]

/-- If none of its key is kept, the element is the first of its key. -/
theorem beq_eq_false_of_new {xs : List α} {x : α}
    (h : ¬ (firstsBy (fun x y => f x == f y) xs).any (f · == f x) = true) : ∀ y ∈ xs, (f y == f x) = false := by
  intro y hy
  obtain ⟨z, hz, hzy⟩ : ∃ z ∈ firstsBy (fun x y => f x == f y) xs, (f z == f y) = true :=
    exists_mem_firstsBy (by simp) hy
  rw [beq_iff_eq] at hzy
  rw [← hzy]
  exact Bool.eq_false_iff.2 fun hsame => h (List.any_eq_true.2 ⟨z, hz, hsame⟩)

/-- Before an element that is kept there is none of its key. -/
theorem find?_of_mem_firstsBy {xs : List α} {x : α} (hx : x ∈ firstsBy (fun x y => f x == f y) xs) :
    xs.find? (f · == f x) = some x := by
  -- on the last element, since that is the one that may be dropped
  induction xs using List.reverseRecOn with
  | nil => simp [firstsBy] at hx
  | append_singleton xs y ih =>
    rw [List.find?_append]
    rw [firstsBy_concat] at hx
    unfold keepNew at hx
    split at hx
    · rw [ih hx]
      rfl
    · rename_i hnew
      rcases List.mem_append.1 hx with hx | hx
      · rw [ih hx]
        rfl
      · obtain rfl := List.mem_singleton.1 hx
        have hnone : xs.find? (f · == f x) = none :=
          List.find?_eq_none.2 fun y hy => Bool.eq_false_iff.1 (beq_eq_false_of_new f hnew y hy)
        rw [hnone]
        simp

/-- What is kept stands in the order of the first elements of each key. -/
theorem pairwise_findIdx_firstsBy (xs : List α) :
    (firstsBy (fun x y => f x == f y) xs).Pairwise fun x y => xs.findIdx (f · == f x) < xs.findIdx (f · == f y) := by
  induction xs using List.reverseRecOn with
  | nil => exact List.Pairwise.nil
  | append_singleton xs x ih =>
    have hfound : ∀ y ∈ firstsBy (fun x y => f x == f y) xs, xs.findIdx (f · == f y) < xs.length := fun y hy =>
      List.findIdx_lt_length.2 ⟨y, mem_of_mem_firstsBy hy, beq_self_eq_true (f y)⟩
    -- one more element at the end moves nothing that was found before
    have hplace : ∀ y ∈ firstsBy (fun x y => f x == f y) xs,
        (xs ++ [x]).findIdx (f · == f y) = xs.findIdx (f · == f y) := fun y hy => by
      rw [List.findIdx_append, if_pos (hfound y hy)]
    have hkept : (firstsBy (fun x y => f x == f y) xs).Pairwise fun y z =>
        (xs ++ [x]).findIdx (f · == f y) < (xs ++ [x]).findIdx (f · == f z) := by
      refine ih.imp_of_mem fun {y z} hy hz hyz => ?_
      rw [hplace y hy, hplace z hz]
      exact hyz
    rw [firstsBy_concat]
    unfold keepNew
    split
    · exact hkept
    · rename_i hnew
      refine List.pairwise_append.2 ⟨hkept, List.pairwise_singleton .., fun y hy z hz => ?_⟩
      obtain rfl := List.mem_singleton.1 hz
      have hlast : xs.findIdx (f · == f z) = xs.length := List.findIdx_eq_length.2 (beq_eq_false_of_new f hnew)
      rw [hplace y hy, List.findIdx_append (p := (f · == f z)), if_neg (Nat.not_lt.2 (Nat.le_of_eq hlast.symm))]
      exact Nat.lt_of_lt_of_le (hfound y hy) (Nat.le_add_left ..)

/-- An element is kept if it is the first of its key. -/
theorem mem_firstsBy_iff {xs : List α} {x : α} :
    x ∈ firstsBy (fun x y => f x == f y) xs ↔ xs.find? (f · == f x) = some x := by
  constructor
  · exact find?_of_mem_firstsBy f
  · intro h
    have hkey : ∀ y z, (f y == f z) = true → (f y == f x) = (f z == f x) := by
      intro y z hyz
      rw [eq_of_beq hyz]
    rw [← find?_firstsBy hkey xs] at h
    exact List.mem_of_find?_eq_some h

end Keys

end VersionAudit
