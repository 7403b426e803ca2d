import Mathlib.Data.List.Pairwise
import VersionAudit.OrderedMap

/-!
# Laws of ordered maps

A map is *distinct* if no two of its entries have equal keys. Every map built by the operations is, and of such
a map the entries and the look-up say the same (`find?_eq_some_iff`). What each operation does to the look-up
is one law each: `find?_insert` beside the definitions, `find?_insertNew`, `find?_complete`, `find?_update` and
`find?_alter` here.
-/

namespace VersionAudit.OrderedMap

variable {κ α : Type} [BEq κ]

/-! ## Distinct keys -/

/-- No two entries have equal keys. -/
def Distinct (m : OrderedMap κ α) : Prop :=
  m.entries.Pairwise fun e f => (e.1 == f.1) = false

theorem distinct_empty : (∅ : OrderedMap κ α).Distinct :=
  List.Pairwise.nil

/-- A property of all keys holds after an entry is put if it holds of the new key. -/
private theorem forall_fst_put {p : κ → Prop} {k : κ} {v : α} {es : List (κ × α)}
    (hk : p k) (hes : ∀ e ∈ es, p e.1) : ∀ e ∈ put k v es, p e.1 := by
  induction es with
  | nil => simpa [put] using hk
  | cons e es ih =>
    rw [List.forall_mem_cons] at hes
    unfold put
    split
    · exact List.forall_mem_cons.2 ⟨hes.1, hes.2⟩
    · exact List.forall_mem_cons.2 ⟨hes.1, ih hes.2⟩

/-- Keys stay distinct when an entry is inserted. -/
theorem distinct_insert {m : OrderedMap κ α} (hm : m.Distinct) (k : κ) (v : α) : (m.insert k v).Distinct := by
  rcases m with ⟨entries⟩
  unfold Distinct insert at *
  induction entries with
  | nil => simp [put]
  | cons e es ih =>
    simp only [List.pairwise_cons] at hm
    dsimp only [put]
    split
    · -- the key keeps its spelling, so it differs from the others as before
      exact List.pairwise_cons.2 ⟨hm.1, hm.2⟩
    · rename_i hek
      refine List.pairwise_cons.2 ⟨?_, ih hm.2⟩
      exact forall_fst_put (p := fun j => (e.1 == j) = false) (by simpa using hek) hm.1

/-- Keys stay distinct when an entry is inserted unless there is one. -/
theorem distinct_insertNew {m : OrderedMap κ α} (hm : m.Distinct) (k : κ) (v : α) :
    (m.insertNew k v).Distinct := by
  unfold insertNew
  split
  · exact hm
  · rename_i hk
    unfold Distinct
    rw [List.pairwise_append]
    refine ⟨hm, List.pairwise_singleton .., ?_⟩
    intro e he f hf
    obtain rfl := List.mem_singleton.1 hf
    simp only [contains, List.any_eq_true, not_exists, not_and, Bool.not_eq_true] at hk
    exact hk e he

/-- Keys stay distinct when the map is completed by another one. -/
theorem distinct_complete {m : OrderedMap κ α} (hm : m.Distinct) (n : OrderedMap κ α) :
    (m.complete n).Distinct := by
  unfold complete
  refine List.foldlRecOn _ _ hm ?_
  intro m' hm' e _
  exact distinct_insertNew hm' e.1 e.2

/-- Keys stay distinct when the map takes over the entries of another one. -/
theorem distinct_update {m : OrderedMap κ α} (hm : m.Distinct) (n : OrderedMap κ α) :
    (m.update n).Distinct := by
  unfold update
  refine List.foldlRecOn _ _ hm ?_
  intro m' hm' e _
  exact distinct_insert hm' e.1 e.2

theorem distinct_alter {m : OrderedMap κ α} (hm : m.Distinct) (k : κ) (start : α) (f : α → α) :
    (m.alter k start f).Distinct :=
  distinct_insert hm k _

/-- A map in which a value was changed has an entry. -/
theorem entries_alter_ne_nil (m : OrderedMap κ α) (k : κ) (start : α) (f : α → α) :
    (m.alter k start f).entries ≠ [] := by
  rcases m with ⟨_ | ⟨e, es⟩⟩
  · exact List.cons_ne_nil _ _
  · show put k _ (e :: es) ≠ []
    unfold put
    split <;> exact List.cons_ne_nil _ _

/-! ## Look-ups -/

@[simp] theorem find?_empty (k : κ) : (∅ : OrderedMap κ α).find? k = none := rfl

theorem find?_cons (e : κ × α) (es : List (κ × α)) (k : κ) :
    (⟨e :: es⟩ : OrderedMap κ α).find? k = if e.1 == k then some e.2 else (⟨es⟩ : OrderedMap κ α).find? k := by
  unfold find?
  rw [List.find?_cons]
  by_cases h : (e.1 == k) = true <;> simp [h]

theorem contains_eq_isSome_find? (m : OrderedMap κ α) (k : κ) : m.contains k = (m.find? k).isSome := by
  unfold contains find?
  rw [Option.isSome_map, List.isSome_find?]

/-- What is found stands in the map under an equal key. -/
theorem exists_mem_of_find? {m : OrderedMap κ α} {k : κ} {v : α} (h : m.find? k = some v) :
    ∃ j, (j, v) ∈ m.entries ∧ (j == k) = true := by
  unfold find? at h
  rcases Option.map_eq_some_iff.1 h with ⟨⟨j, w⟩, hfind, rfl⟩
  exact ⟨j, List.mem_of_find?_eq_some hfind, by simpa using List.find?_some hfind⟩

section Equivalence

variable [EquivBEq κ]

/-- Equal keys find the same. -/
theorem find?_congr (m : OrderedMap κ α) {j k : κ} (h : (j == k) = true) : m.find? j = m.find? k := by
  unfold find?
  congr 2
  funext e
  rw [Bool.eq_iff_iff]
  exact ⟨fun hj => BEq.trans hj h, fun hk => BEq.trans hk (BEq.symm h)⟩

/-- Of a distinct map every entry is found under its key. -/
theorem find?_of_mem {m : OrderedMap κ α} (hm : m.Distinct) {j : κ} {v : α} (h : (j, v) ∈ m.entries) :
    m.find? j = some v := by
  rcases m with ⟨entries⟩
  unfold Distinct at hm
  induction entries with
  | nil => simp at h
  | cons e es ih =>
    rw [List.pairwise_cons] at hm
    rw [find?_cons]
    rcases List.mem_cons.1 h with rfl | hes
    · simp
    · have hej : (e.1 == j) = false := hm.1 _ hes
      simpa [hej] using ih hm.2 hes

/-- In a distinct map, what is found under a key is what stands there. -/
theorem find?_eq_some_iff {m : OrderedMap κ α} (hm : m.Distinct) {k : κ} {v : α} :
    m.find? k = some v ↔ ∃ j, (j, v) ∈ m.entries ∧ (j == k) = true := by
  constructor
  · exact exists_mem_of_find?
  · rintro ⟨j, hmem, hjk⟩
    rw [← find?_congr m hjk]
    exact find?_of_mem hm hmem

/-- A new value counts only for a key that had none. -/
theorem find?_insertNew (m : OrderedMap κ α) (k j : κ) (v : α) :
    (m.insertNew k v).find? j = (m.find? j).or (if k == j then some v else none) := by
  unfold insertNew
  split
  · rename_i hk
    by_cases h : (k == j) = true
    · -- the key is taken, so its old value stays
      rw [contains_eq_isSome_find?, find?_congr m h] at hk
      rcases Option.isSome_iff_exists.1 hk with ⟨w, hw⟩
      simp [hw]
    · simp [h]
  · unfold find?
    rw [List.find?_append, Option.map_or]
    by_cases h : (k == j) = true <;> simp [h]

/-- The first map has the first say. -/
theorem find?_complete (m n : OrderedMap κ α) (j : κ) :
    (m.complete n).find? j = (m.find? j).or (n.find? j) := by
  rcases n with ⟨entries⟩
  unfold complete
  induction entries generalizing m with
  | nil => simp [find?]
  | cons e es ih =>
    rw [List.foldl_cons, ih, find?_insertNew, Option.or_assoc, find?_cons]
    by_cases h : (e.1 == j) = true <;> simp [h]

/-- The entries of a distinct second map take the place of those of the first. -/
theorem find?_update (m : OrderedMap κ α) {n : OrderedMap κ α} (hn : n.Distinct) (j : κ) :
    (m.update n).find? j = (n.find? j).or (m.find? j) := by
  rcases n with ⟨entries⟩
  unfold Distinct update at *
  induction entries generalizing m with
  | nil => simp [find?]
  | cons e es ih =>
    rw [List.pairwise_cons] at hn
    rw [List.foldl_cons, ih _ hn.2, find?_insert, find?_cons]
    by_cases h : (e.1 == j) = true
    · -- no later entry has the key of this one
      have hnone : (⟨es⟩ : OrderedMap κ α).find? j = none := by
        refine Option.eq_none_iff_forall_ne_some.2 fun v hv => ?_
        rcases exists_mem_of_find? hv with ⟨i, hi, hij⟩
        have hei := hn.1 _ hi
        rw [BEq.trans h (BEq.symm hij)] at hei
        exact absurd hei (by simp)
      simp [hnone, h]
    · simp [h]

/-- A value altered under a key is seen under the equal keys only. -/
theorem find?_alter (m : OrderedMap κ α) (k j : κ) (start : α) (f : α → α) :
    (m.alter k start f).find? j = if k == j then some (f ((m.find? j).getD start)) else m.find? j := by
  unfold alter
  rw [find?_insert]
  split
  · rename_i h
    rw [find?_congr m h]
  · rfl

end Equivalence

/-! ## Changing all values -/

section Values

variable {β : Type} (f : κ → α → β)

/-- The map with every value changed, as its key asks for. -/
def mapValues (f : κ → α → β) (m : OrderedMap κ α) : OrderedMap κ β :=
  ⟨m.entries.map fun e => (e.1, f e.1 e.2)⟩

variable {f} {k : κ} (hf : ∀ j, (j == k) = true → f j = f k)

include hf

/-- The value found for a key is the changed one. -/
theorem find?_mapValues (m : OrderedMap κ α) : (m.mapValues f).find? k = (m.find? k).map (f k) := by
  rcases m with ⟨entries⟩
  unfold mapValues
  induction entries with
  | nil => rfl
  | cons e es ih =>
    rw [List.map_cons, find?_cons, find?_cons]
    by_cases h : (e.1 == k) = true
    · rw [if_pos h, if_pos h, Option.map_some, hf _ h]
    · rw [if_neg h, if_neg h]
      exact ih

/-- A changed value may be inserted before or after all values are changed. -/
theorem insert_mapValues (m : OrderedMap κ α) (v : α) :
    (m.mapValues f).insert k (f k v) = (m.insert k v).mapValues f := by
  rcases m with ⟨entries⟩
  unfold mapValues insert
  congr 1
  dsimp only
  induction entries with
  | nil => rfl
  | cons e es ih =>
    rw [List.map_cons]
    unfold put
    by_cases h : (e.1 == k) = true
    · rw [if_pos h, if_pos h, List.map_cons, hf _ h]
    · rw [if_neg h, if_neg h, List.map_cons, ih]

/-- A value may be altered before or after all values are changed. -/
theorem alter_mapValues (m : OrderedMap κ α) {start : α} {start' : β} {g : α → α} {g' : β → β}
    (hstart : f k start = start') (hg : ∀ v, g' (f k v) = f k (g v)) :
    (m.mapValues f).alter k start' g' = (m.alter k start g).mapValues f := by
  unfold alter
  rw [find?_mapValues hf, ← hstart, ← insert_mapValues hf, ← hg]
  cases m.find? k <;> rfl

end Values

end VersionAudit.OrderedMap
