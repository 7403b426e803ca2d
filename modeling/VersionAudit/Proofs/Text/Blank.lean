import Mathlib.Data.List.TakeWhile
import VersionAudit.Text.Blank

/-!
# Removing blanks

1. `trimChars_blank_append`, `trimChars_append_blank`: blanks at the ends make no difference.
2. `trimChars_append_cons`: from a text with a character in it that is no blank, blanks are removed on both sides of it.
3. `trimChars_eq_self_iff`: a text has no blanks to remove if neither its first nor its last character is one.
4. `Spaced`: a text with blanks around it. `Spaced.trimChars_eq`: they are gone once blanks are removed.
-/

namespace VersionAudit.Text

/-! ## Blanks at the ends -/

/-- The text without the blanks at its end. -/
def trimBack (cs : List Char) : List Char :=
  (trimFront cs.reverse).reverse

theorem trimChars_blank_append {before : List Char} (h : ∀ c ∈ before, isBlank c = true) (cs : List Char) :
    trimChars (before ++ cs) = trimChars cs := by
  have hfront : trimFront (before ++ cs) = trimFront cs := List.dropWhile_append_of_pos h
  unfold trimChars
  rw [hfront]

/-- Blanks at the end are trimmed. -/
theorem trimBack_append_blank {after : List Char} (h : ∀ c ∈ after, isBlank c = true) (cs : List Char) :
    trimBack (cs ++ after) = trimBack cs := by
  have hback : trimFront (after.reverse ++ cs.reverse) = trimFront cs.reverse := by
    refine List.dropWhile_append_of_pos ?_
    intro c hc
    exact h c (List.mem_reverse.1 hc)
  unfold trimBack
  rw [List.reverse_append, hback]

/-- Trimming both ends takes no notice of blanks at the end. -/
theorem trimChars_append_blank {after : List Char} (h : ∀ c ∈ after, isBlank c = true) (cs : List Char) :
    trimChars (cs ++ after) = trimChars cs := by
  show trimBack (trimFront (cs ++ after)) = trimBack (trimFront cs)
  -- the front is trimmed first, which reaches the end only if all is blank
  have hfront : trimFront (cs ++ after) = trimFront cs ++ after ∨ trimFront (cs ++ after) = [] ∧ trimFront cs = [] := by
    unfold trimFront
    rw [List.dropWhile_append]
    split
    · rename_i hnone
      exact .inr ⟨List.dropWhile_eq_nil_iff.2 h, List.isEmpty_iff.1 hnone⟩
    · exact .inl rfl
  rcases hfront with hfront | ⟨hall, hnone⟩
  · rw [hfront, trimBack_append_blank h]
  · rw [hall, hnone]

theorem length_trimFront_le (cs : List Char) : (trimFront cs).length ≤ cs.length :=
  (List.dropWhile_suffix isBlank).length_le

theorem length_trimBack_le (cs : List Char) : (trimBack cs).length ≤ cs.length := by
  have hback := length_trimFront_le cs.reverse
  unfold trimBack
  rwa [List.length_reverse] at hback ⊢

theorem length_trimChars_le (cs : List Char) : (trimChars cs).length ≤ cs.length :=
  le_trans (length_trimBack_le (trimFront cs)) (length_trimFront_le cs)

theorem trimChars_trimFront (cs : List Char) : trimChars (trimFront cs) = trimChars cs := by
  have hblank : ∀ c ∈ cs.takeWhile isBlank, isBlank c = true := fun c hc => List.mem_takeWhile_imp hc
  have hcut : cs.takeWhile isBlank ++ trimFront cs = cs := List.takeWhile_append_dropWhile
  rw [← trimChars_blank_append hblank, hcut]

/-- Trimming the end first changes nothing. -/
theorem trimChars_trimBack (cs : List Char) : trimChars (trimBack cs) = trimChars cs := by
  have hblank : ∀ c ∈ (cs.reverse.takeWhile isBlank).reverse, isBlank c = true :=
    fun c hc => List.mem_takeWhile_imp (List.mem_reverse.1 hc)
  have hcut : trimBack cs ++ (cs.reverse.takeWhile isBlank).reverse = cs := by
    unfold trimBack trimFront
    rw [← List.reverse_append, List.takeWhile_append_dropWhile, List.reverse_reverse]
  rw [← trimChars_append_blank hblank, hcut]

/-! ## A character that is no blank -/

/-- Trimming the front does not go past a character that is no blank. -/
theorem trimFront_append_cons {c : Char} (h : isBlank c = false) (front back : List Char) :
    trimFront (front ++ c :: back) = trimFront front ++ c :: back := by
  unfold trimFront
  rw [List.dropWhile_append]
  split
  · rename_i hnone
    rw [List.isEmpty_iff.1 hnone, List.dropWhile_cons, h]
    rfl
  · rfl

/-- Trimming the end does not go past a character that is no blank. -/
theorem trimBack_append_cons {c : Char} (h : isBlank c = false) (front back : List Char) :
    trimBack (front ++ c :: back) = front ++ c :: trimBack back := by
  have hreverse : (front ++ c :: back).reverse = back.reverse ++ c :: front.reverse := by simp
  unfold trimBack
  rw [hreverse, trimFront_append_cons h]
  simp

/-- Blanks are removed only before the first and behind the last character that is none. -/
theorem trimChars_append_cons {c : Char} (h : isBlank c = false) (front back : List Char) :
    trimChars (front ++ c :: back) = trimFront front ++ c :: trimBack back := by
  show trimBack (trimFront (front ++ c :: back)) = _
  rw [trimFront_append_cons h, trimBack_append_cons h]

/-- A last character that is not blank stays the last one. -/
theorem getLast?_trimChars {cs : List Char} {c : Char} (h : cs.getLast? = some c) (hc : isBlank c = false) :
    (trimChars cs).getLast? = some c := by
  obtain ⟨cs, rfl⟩ := List.getLast?_eq_some_iff.1 h
  have hnothing : trimBack [] = [] := rfl
  rw [trimChars_append_cons hc, hnothing, List.getLast?_concat]

/-! ## Texts without blanks at their ends -/

/-- A text with its front trimmed does not begin with a blank. -/
theorem isBlank_of_head?_trimFront {cs : List Char} {c : Char} (h : (trimFront cs).head? = some c) :
    isBlank c = false := by
  have hnot := List.head?_dropWhile_not isBlank cs
  unfold trimFront at h
  rw [h] at hnot
  exact hnot

/-- A text that does not begin with a blank is trimmed in front. -/
theorem trimFront_eq_self {cs : List Char} (h : ∀ c, cs.head? = some c → isBlank c = false) : trimFront cs = cs := by
  cases cs with
  | nil => rfl
  | cons c cs =>
    unfold trimFront
    rw [List.dropWhile_cons, h c rfl]
    rfl

/-- A text is trimmed just if it neither begins nor ends with a blank. -/
theorem trimChars_eq_self_iff {cs : List Char} :
    trimChars cs = cs ↔
      (∀ c, cs.head? = some c → isBlank c = false) ∧ ∀ c, cs.getLast? = some c → isBlank c = false := by
  constructor
  · intro h
    have hback : ∀ c, cs.getLast? = some c → isBlank c = false := by
      intro c hc
      rw [← h] at hc
      unfold trimChars at hc
      rw [List.getLast?_reverse] at hc
      exact isBlank_of_head?_trimFront hc
    -- nothing can have been removed from the front
    have hfront : trimFront cs = cs := by
      refine (List.dropWhile_suffix isBlank).eq_of_length_le ?_
      have hlength : (trimChars cs).length ≤ (trimFront cs).length := length_trimBack_le (trimFront cs)
      rwa [h] at hlength
    refine ⟨fun c hc => ?_, hback⟩
    rw [← hfront] at hc
    exact isBlank_of_head?_trimFront hc
  · rintro ⟨hfront, hback⟩
    have hreverse : trimFront cs.reverse = cs.reverse :=
      trimFront_eq_self fun c hc => hback c (by rwa [List.head?_reverse] at hc)
    unfold trimChars
    rw [trimFront_eq_self hfront, hreverse, List.reverse_reverse]

theorem trim_eq_self_iff {s : String} : trim s = s ↔ trimChars s.toList = s.toList := by
  unfold trim
  constructor
  · intro h
    have hchars := congrArg String.toList h
    rwa [String.toList_ofList] at hchars
  · intro h
    rw [h, String.ofList_toList]

/-! ## Blanks around a text -/

/-- A text with blanks around it. -/
def Spaced (text cs : List Char) : Prop :=
  ∃ before after, (∀ c ∈ before, isBlank c = true) ∧ (∀ c ∈ after, isBlank c = true) ∧ cs = before ++ text ++ after

/-- A text spaced with blanks is trimmed to what the text itself is trimmed to. -/
theorem Spaced.trimChars_eq {text cs : List Char} (h : Spaced text cs) : trimChars cs = trimChars text := by
  obtain ⟨before, after, hbefore, hafter, rfl⟩ := h
  rw [trimChars_append_blank hafter, trimChars_blank_append hbefore]

/-- Blanks do not bring in a character that is none. -/
theorem Spaced.not_mem {text cs : List Char} (h : Spaced text cs) {c : Char} (hc : isBlank c = false)
    (htext : c ∉ text) : c ∉ cs := by
  obtain ⟨before, after, hbefore, hafter, rfl⟩ := h
  intro hmem
  rcases List.mem_append.1 hmem with hmem | hmem
  · rcases List.mem_append.1 hmem with hmem | hmem
    · rw [hbefore c hmem] at hc
      cases hc
    · exact htext hmem
  · rw [hafter c hmem] at hc
    cases hc

end VersionAudit.Text
