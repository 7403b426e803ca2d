/-!
# Maps that remember their order

A finite map as the list of its entries in the order in which their keys first came. Writing to a key that
is present changes its value only: the entry keeps its place and the spelling of its first key.
-/

namespace VersionAudit

/-- A finite map with its entries in order of first insertion. -/
structure OrderedMap (κ α : Type) where
  entries : List (κ × α)
deriving Repr

namespace OrderedMap

variable {κ α : Type} [BEq κ]

/-- The map without entries. -/
def empty : OrderedMap κ α := ⟨[]⟩

instance : EmptyCollection (OrderedMap κ α) := ⟨empty⟩
instance : Inhabited (OrderedMap κ α) := ⟨empty⟩

/-- The keys in order. -/
def keys (m : OrderedMap κ α) : List κ := m.entries.map (·.1)

/-- The values in the order of their keys. -/
def values (m : OrderedMap κ α) : List α := m.entries.map (·.2)

/-- The value of a key. -/
def find? (m : OrderedMap κ α) (k : κ) : Option α :=
  (m.entries.find? fun e => e.1 == k).map (·.2)

/-- Whether a key has a value. -/
def contains (m : OrderedMap κ α) (k : κ) : Bool :=
  m.entries.any fun e => e.1 == k

/-- Replaces the value of the first entry with the key, or appends an entry. -/
def put (k : κ) (v : α) : List (κ × α) → List (κ × α)
  | [] => [(k, v)]
  | e :: es => if e.1 == k then (e.1, v) :: es else e :: put k v es

/-- Sets the value of a key. -/
def insert (m : OrderedMap κ α) (k : κ) (v : α) : OrderedMap κ α :=
  ⟨put k v m.entries⟩

/-- Sets the value of a key that has none yet. -/
def insertNew (m : OrderedMap κ α) (k : κ) (v : α) : OrderedMap κ α :=
  if m.contains k then m else ⟨m.entries ++ [(k, v)]⟩

/-- Changes the value of a key, `start` being the value of an absent one. -/
def alter (m : OrderedMap κ α) (k : κ) (start : α) (f : α → α) : OrderedMap κ α :=
  m.insert k (f ((m.find? k).getD start))

/-- The map of a list of entries, later values replacing earlier ones. -/
def ofList (es : List (κ × α)) : OrderedMap κ α :=
  es.foldl (fun m e => m.insert e.1 e.2) ∅

/-- The first map overwritten by the entries of the second. -/
def update (m n : OrderedMap κ α) : OrderedMap κ α :=
  n.entries.foldl (fun m e => m.insert e.1 e.2) m

/-- The first map completed by those entries of the second whose keys it lacks. -/
def complete (m n : OrderedMap κ α) : OrderedMap κ α :=
  n.entries.foldl (fun m e => m.insertNew e.1 e.2) m

/-- The number of entries. -/
def size (m : OrderedMap κ α) : Nat := m.entries.length

section Lawful

variable [EquivBEq κ]

/-- The value put for a key is found for equal keys, and others find what they found before. -/
private theorem find?_put (k j : κ) (v : α) (es : List (κ × α)) :
    ((put k v es).find? fun e => e.1 == j).map (·.2) =
      if k == j then some v else (es.find? fun e => e.1 == j).map (·.2) := by
  -- entry by entry; equal keys are found at the same entry, as equality is transitive
  induction es with
  | nil => by_cases h : (k == j) = true <;> simp [put, h]
  | cons e es ih =>
    by_cases he : (e.1 == k) = true
    · by_cases h : (k == j) = true
      · have : (e.1 == j) = true := BEq.trans he h
        simp [put, he, h, this]
      · have hj : (e.1 == j) = false := by
          apply Bool.eq_false_iff.2
          intro hej
          exact h (BEq.trans (BEq.symm he) hej)
        simp [put, he, h, hj]
    · by_cases h : (k == j) = true
      · have hj : (e.1 == j) = false := by
          apply Bool.eq_false_iff.2
          intro hej
          exact he (BEq.trans hej (BEq.symm h))
        simp only [put, he, Bool.false_eq_true, if_false, List.find?_cons, hj, ih, h, if_true]
      · by_cases hej : (e.1 == j) = true
        · simp [put, he, h, hej]
        · simp only [put, he, Bool.false_eq_true, if_false, List.find?_cons, hej, ih, h]

/-- A key that was written has the value written last, and no other key changes. -/
theorem find?_insert (m : OrderedMap κ α) (k j : κ) (v : α) :
    (m.insert k v).find? j = if k == j then some v else m.find? j :=
  find?_put k j v m.entries

end Lawful

end OrderedMap

end VersionAudit
