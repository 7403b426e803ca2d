import Mathlib.Data.List.Basic
import VersionAudit.Text.Split

/-!
# Joined texts

1. `cut_joined`, `splitChars_joined`: joined texts are taken apart again, if the pieces have no separators.
2. `joined_cut`, `joined_splitChars`: what a text is taken apart into makes up the text.
3. `length_splitChars`: how many pieces there are.
4. `toList_intercalate_cons`: the characters of joined texts. `split_intercalate`: they are taken apart into the
   texts again.
-/

namespace VersionAudit.Text

/-- A text is cut before the first separator. -/
theorem cut_joined {sep : Char} {front : List Char} (h : sep ∉ front) (back : Option (List Char)) :
    cut sep (front ++ (back.map (sep :: ·)).getD []) = (front, back) := by
  induction front with
  | nil =>
    -- the front is through: either nothing follows it, or the separator does
    cases back with
    | none => rfl
    | some back =>
      show cut sep (sep :: back) = _
      rw [cut, beq_self_eq_true]
      rfl
  | cons c cs ih =>
    rw [List.mem_cons, not_or] at h
    have hc : (c == sep) = false := beq_false_of_ne (Ne.symm h.1)
    rw [List.cons_append, cut, hc, ih h.2]
    rfl

/-- Texts that are cut before their first separator have the same parts if they are the same. -/
theorem parts_eq_of_joined_eq {sep : Char} {front front' back back' : List Char} (h : sep ∉ front) (h' : sep ∉ front')
    (hsame : front ++ sep :: back = front' ++ sep :: back') : front = front' ∧ back = back' := by
  have hparts := cut_joined h (some back)
  rw [Option.map_some, Option.getD_some, hsame] at hparts
  have hparts' := hparts.symm.trans (cut_joined h' (some back'))
  exact ⟨congrArg Prod.fst hparts', Option.some_inj.1 (congrArg Prod.snd hparts')⟩

/-- What has no separator belongs to the first piece of the text behind it. -/
theorem splitChars_append {sep : Char} {front cs piece : List Char} {pieces : List (List Char)} (h : sep ∉ front)
    (hcs : splitChars sep cs = piece :: pieces) : splitChars sep (front ++ cs) = (front ++ piece) :: pieces := by
  induction front with
  | nil => exact hcs
  | cons c front ih =>
    rw [List.mem_cons, not_or] at h
    have hc : (c == sep) = false := beq_false_of_ne (Ne.symm h.1)
    rw [List.cons_append, splitChars, hc, ih h.2]
    rfl

/-- Pieces without the separator are the pieces of their joining. -/
theorem splitChars_joined {sep : Char} {first : List Char} {more : List (List Char)}
    (h : ∀ piece ∈ first :: more, sep ∉ piece) :
    splitChars sep (first ++ more.flatMap (sep :: ·)) = first :: more := by
  induction more generalizing first with
  | nil =>
    have hend : splitChars sep [] = [[]] := rfl
    rw [List.flatMap_nil, splitChars_append (h first (List.mem_cons_self ..)) hend, List.append_nil]
  | cons second more ih =>
    rw [List.forall_mem_cons] at h
    have hrest : splitChars sep ((second :: more).flatMap (sep :: ·)) = [] :: second :: more := by
      rw [List.flatMap_cons, List.cons_append, splitChars, beq_self_eq_true, ih h.2]
      rfl
    -- the first piece goes in front of the empty piece that the separator ends
    rw [splitChars_append h.1 hrest, List.append_nil]

/-- The pieces of a text have no separators, and joined they make up the text. -/
theorem joined_splitChars (sep : Char) (cs : List Char) :
    ∃ first more, splitChars sep cs = first :: more ∧ first ++ more.flatMap (sep :: ·) = cs ∧
      ∀ piece ∈ first :: more, sep ∉ piece := by
  induction cs with
  | nil => exact ⟨[], [], rfl, rfl, by simp⟩
  | cons c cs ih =>
    obtain ⟨first, more, hsplit, hjoined, hpieces⟩ := ih
    by_cases hc : c = sep
    · refine ⟨[], first :: more, ?_, ?_, ?_⟩
      · rw [splitChars, hc, beq_self_eq_true, hsplit]
        rfl
      · rw [List.flatMap_cons, List.cons_append, hjoined, hc]
        rfl
      · rw [List.forall_mem_cons]
        exact ⟨List.not_mem_nil, hpieces⟩
    · refine ⟨c :: first, more, ?_, ?_, ?_⟩
      · rw [splitChars, beq_false_of_ne hc, hsplit]
        rfl
      · rw [List.cons_append, hjoined]
      · rw [List.forall_mem_cons] at hpieces ⊢
        rw [List.mem_cons, not_or]
        exact ⟨⟨Ne.symm hc, hpieces.1⟩, hpieces.2⟩

/-- There is one piece more than there are separators. -/
theorem length_splitChars (sep : Char) (cs : List Char) : (splitChars sep cs).length = cs.count sep + 1 := by
  obtain ⟨first, more, hsplit, hjoined, hpieces⟩ := joined_splitChars sep cs
  have hcount : ∀ piece ∈ first :: more, piece.count sep = 0 := fun piece hpiece =>
    List.count_eq_zero.2 (hpieces piece hpiece)
  -- each piece but the first one has a separator in front, and none inside
  have hmore : (more.flatMap (sep :: ·)).count sep = more.length := by
    clear hsplit hjoined hpieces
    induction more with
    | nil => rfl
    | cons second more ih =>
      have hsecond := hcount second (by simp)
      have hrest := ih fun piece hpiece => hcount piece (by
        rw [List.mem_cons] at hpiece ⊢
        exact hpiece.imp_right (List.mem_cons_of_mem second))
      rw [List.flatMap_cons, List.count_append, List.count_cons_self, hsecond, hrest, List.length_cons]
      omega
  rw [hsplit, ← hjoined, List.count_append, hcount first (List.mem_cons_self ..), hmore, List.length_cons]
  omega

/-- The characters of joined texts are those of the first one, and those of each other one behind the separator. -/
theorem toList_intercalate_cons (sep : Char) (first : String) (more : List String) :
    (String.intercalate (String.ofList [sep]) (first :: more)).toList =
      first.toList ++ more.flatMap fun piece => sep :: piece.toList := by
  rw [String.toList_intercalate, List.map_cons, String.toList_ofList]
  induction more generalizing first with
  | nil => simp
  | cons second more ih =>
    rw [List.map_cons, List.intercalate_cons_cons, ih, List.flatMap_cons, List.append_assoc]
    rfl

/-- Texts without the separator are the pieces of their joining. -/
theorem splitChars_intercalate {sep : Char} {first : String} {more : List String}
    (h : ∀ piece ∈ first :: more, sep ∉ piece.toList) :
    splitChars sep (String.intercalate (String.ofList [sep]) (first :: more)).toList =
      (first :: more).map String.toList := by
  rw [toList_intercalate_cons, ← List.flatMap_map, List.map_cons]
  apply splitChars_joined
  intro piece hpiece
  rw [← List.map_cons] at hpiece
  obtain ⟨s, hs, rfl⟩ := List.mem_map.1 hpiece
  exact h s hs

theorem split_intercalate {sep : Char} {first : String} {more : List String}
    (h : ∀ piece ∈ first :: more, sep ∉ piece.toList) :
    split sep (String.intercalate (String.ofList [sep]) (first :: more)) = first :: more := by
  have hback : String.ofList ∘ String.toList = id := funext fun _ => String.ofList_toList
  unfold split
  rw [splitChars_intercalate h, List.map_map, hback, List.map_id]

end VersionAudit.Text
