import VersionAudit.Text.LowerCase

/-!
# Small letters, part by part

A text is put in small letters character by character, but for the capital sigma, whose small form tells whether the word
ends there. So the parts of a text can be put in small letters on their own if no sigma stands in front of the cut, or if
the cut is at a hyphen, which ends a word.

1. `lowerFrom_ascii`: ASCII texts.
2. `lowerFrom_append_of`: a text and what follows it. `lowerFrom_append`: a hyphen between them.
-/

namespace VersionAudit.Text

/-! ## ASCII texts -/

/-- What holds of the first 128 characters holds of each character with a small code point. -/
theorem forall_ascii {P : Char → Prop} (h : ∀ n ∈ List.range 128, P (Char.ofNat n)) {c : Char}
    (hc : c.toNat < 128) : P c := by
  have hn := h c.toNat (List.mem_range.2 hc)
  rwa [Char.ofNat_toNat] at hn

/-- In ASCII each character is lowered by itself. -/
theorem lowerFrom_ascii {cs : List Char} (h : ∀ c ∈ cs, c.toNat < 128) (before : List Char) :
    lowerFrom before cs = cs.map Char.toLower := by
  induction cs generalizing before with
  | nil => rfl
  | cons c cs ih =>
    rw [List.forall_mem_cons] at h
    -- the two letters that are lowered in a way of their own are not in ASCII
    have hsigma : (c == 'Σ') = false := by
      rw [beq_eq_false_iff_ne]
      rintro rfl
      exact absurd h.1 (by decide)
    have hdotted : (c == 'İ') = false := by
      rw [beq_eq_false_iff_ne]
      rintro rfl
      exact absurd h.1 (by decide)
    have hsmall : smallLetter c = c.toLower :=
      forall_ascii (P := fun c => smallLetter c = c.toLower) smallLetter_ascii h.1
    unfold lowerFrom
    simp only [hsigma, hdotted, Bool.false_eq_true, if_false, hsmall]
    rw [ih h.2]
    rfl

/-! ## Cuts -/

/-- What a character is in small letters. The letters around it matter to a capital sigma only. -/
def smallLetters (before : List Char) (c : Char) (rest : List Char) : List Char :=
  if c == 'Σ' then [if wordContinues before && !wordContinues rest then 'ς' else 'σ']
  else if c == 'İ' then ['i', '\u0307']
  else [smallLetter c]

theorem lowerFrom_cons (before : List Char) (c : Char) (rest : List Char) :
    lowerFrom before (c :: rest) = smallLetters before c rest ++ lowerFrom (c :: before) rest := rfl

/-- What follows a text leaves its small letters as they are, unless a word with a capital sigma goes on there. -/
theorem lowerFrom_append_of {cs rest : List Char}
    (h : 'Σ' ∈ cs → ∀ back, wordContinues (back ++ rest) = wordContinues back) (before : List Char) :
    lowerFrom before (cs ++ rest) = lowerFrom before cs ++ lowerFrom (cs.reverse ++ before) rest := by
  induction cs generalizing before with
  | nil => rfl
  | cons c cs ih =>
    -- only a capital sigma is lowered in view of what follows
    have hsmall : smallLetters before c (cs ++ rest) = smallLetters before c cs := by
      unfold smallLetters
      by_cases hsigma : c = 'Σ'
      · have hmem : 'Σ' ∈ c :: cs := List.mem_cons.2 (.inl hsigma.symm)
        rw [h hmem cs]
      · have hother : (c == 'Σ') = false := beq_false_of_ne hsigma
        simp only [hother, Bool.false_eq_true, if_false]
    have hrest := ih (fun hmem => h (List.mem_cons_of_mem c hmem)) (c :: before)
    rw [List.cons_append, lowerFrom_cons, lowerFrom_cons, hrest, hsmall, List.reverse_cons, List.append_assoc,
      List.append_assoc]
    rfl

/-- A word continues at the next letter, past what is ignored. -/
theorem wordContinues_cons (c : Char) (cs : List Char) :
    wordContinues (c :: cs) = if isCaseIgnorable c then wordContinues cs else isCased c := by
  unfold wordContinues
  rw [List.dropWhile_cons]
  by_cases hc : isCaseIgnorable c = true
  · rw [if_pos hc, if_pos hc]
  · rw [if_neg hc, if_neg hc]

/-- A hyphen ends a word. -/
theorem wordContinues_append (cs rest : List Char) : wordContinues (cs ++ '-' :: rest) = wordContinues cs := by
  induction cs with
  | nil =>
    have hstops : isCaseIgnorable '-' = false := by decide +kernel
    have huncased : isCased '-' = false := by decide +kernel
    rw [List.nil_append, wordContinues_cons, hstops, huncased]
    rfl
  | cons c cs ih => rw [List.cons_append, wordContinues_cons, wordContinues_cons, ih]

/-- A hyphen keeps apart what stands before and behind it. -/
theorem lowerFrom_append (before cs rest : List Char) :
    lowerFrom before (cs ++ '-' :: rest) =
      lowerFrom before cs ++ '-' :: lowerFrom ('-' :: (cs.reverse ++ before)) rest := by
  have hhyphen : smallLetters (cs.reverse ++ before) '-' rest = ['-'] := by
    have hletter : smallLetter '-' = '-' := by decide +kernel
    unfold smallLetters
    rw [hletter]
    rfl
  rw [lowerFrom_append_of (fun _ back => wordContinues_append back rest), lowerFrom_cons, hhyphen]
  rfl

end VersionAudit.Text
