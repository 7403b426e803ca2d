import VersionAudit.Proofs.Text.Split
import VersionAudit.Text.Glob

/-!
# What wildcards match

An expression is literals with a star between any two neighbours. It matches the texts that consist of the literals, in
their order, with a run of characters without a line break in the place of every star.

1. `Covers`: a text that consists of literals and runs.
2. `skip_iff`, `matchesChars_literals_iff`: what a star and a row of literal characters leave of a text.
3. `matchesChars_iff`: an expression matches the texts that its literals cover. `matchesChars_ofChars_iff`: this is so
   for every expression, since each is made up of literals and stars in one way.
-/

namespace VersionAudit.Text

/-- The text is the first literal, and behind it a run without line breaks and the next literal, one by one. -/
def Covers (first : List Char) (more : List (List Char)) (cs : List Char) : Prop :=
  ∃ runs : List (List Char), runs.length = more.length ∧ (∀ run ∈ runs, '\n' ∉ run) ∧
    cs = first ++ (runs.zip more).flatMap fun gap => gap.1 ++ gap.2

/-- One piece covers the text that it is. -/
theorem covers_nil {first cs : List Char} : Covers first [] cs ↔ cs = first := by
  constructor
  · rintro ⟨runs, -, -, hcs⟩
    simpa using hcs
  · intro hcs
    exact ⟨[], rfl, by simp, by simpa using hcs⟩

/-- The next piece follows the first one behind a run without line ends. -/
theorem covers_cons {first next cs : List Char} {more : List (List Char)} :
    Covers first (next :: more) cs ↔
      ∃ run rest, cs = first ++ (run ++ rest) ∧ '\n' ∉ run ∧ Covers next more rest := by
  constructor
  · rintro ⟨runs, hlength, hruns, hcs⟩
    cases runs with
    | nil => cases hlength
    | cons run runs =>
      rw [List.forall_mem_cons] at hruns
      refine ⟨run, _, ?_, hruns.1, runs, Nat.succ.inj hlength, hruns.2, rfl⟩
      rw [hcs, List.zip_cons_cons, List.flatMap_cons, List.append_assoc run]
  · rintro ⟨run, rest, hcs, hrun, runs, hlength, hruns, hrest⟩
    refine ⟨run :: runs, congrArg Nat.succ hlength, List.forall_mem_cons.2 ⟨hrun, hruns⟩, ?_⟩
    rw [hcs, hrest, List.zip_cons_cons, List.flatMap_cons, List.append_assoc run]

namespace Glob

/-! ## One piece -/

/-- The piece that a character stands for. -/
def pieceOf (c : Char) : GlobPiece :=
  if c == '*' then .star else .literal c

/-- An expression as it is read: nothing is read as a star. -/
def orStar : List Char → List Char
  | [] => ['*']
  | cs => cs

theorem ofChars_eq (cs : List Char) : ofChars cs = (orStar cs).map pieceOf := by
  cases cs <;> rfl

/-- Without a star all characters are literal. -/
theorem map_pieceOf_of_not_mem {cs : List Char} (h : '*' ∉ cs) : cs.map pieceOf = cs.map .literal := by
  apply List.map_congr_left
  intro c hc
  have hne : c ≠ '*' := by
    rintro rfl
    exact h hc
  unfold pieceOf
  rw [beq_false_of_ne hne]
  rfl

/-- A star passes over a run without line breaks. -/
theorem skip_iff {after : List Char → Bool} {cs : List Char} :
    skip after cs = true ↔ ∃ run rest, cs = run ++ rest ∧ '\n' ∉ run ∧ after rest = true := by
  induction cs with
  | nil =>
    unfold skip
    constructor
    · intro h
      exact ⟨[], [], rfl, List.not_mem_nil, h⟩
    · rintro ⟨run, rest, hcs, -, h⟩
      obtain ⟨-, rfl⟩ := List.append_eq_nil_iff.1 hcs.symm
      exact h
  | cons c cs ih =>
    unfold skip
    rw [Bool.or_eq_true, Bool.and_eq_true, bne_iff_ne, ih]
    constructor
    · rintro (h | ⟨hc, run, rest, rfl, hrun, h⟩)
      · exact ⟨[], c :: cs, rfl, List.not_mem_nil, h⟩
      · refine ⟨c :: run, rest, rfl, ?_, h⟩
        rw [List.mem_cons, not_or]
        exact ⟨Ne.symm hc, hrun⟩
    · rintro ⟨run, rest, hcs, hrun, h⟩
      -- the run is empty, or begins with the first character of the text
      cases run with
      | nil =>
        rw [List.nil_append] at hcs
        exact .inl (hcs ▸ h)
      | cons d run =>
        rw [List.cons_append, List.cons.injEq] at hcs
        obtain ⟨rfl, rfl⟩ := hcs
        rw [List.mem_cons, not_or] at hrun
        exact .inr ⟨Ne.symm hrun.1, run, rest, rfl, hrun.2, h⟩

/-- A row of literal characters matches itself at the front of the text. -/
theorem matchesChars_literals_iff {literals cs : List Char} {g : Glob} :
    matchesChars (literals.map .literal ++ g) cs = true ↔ ∃ rest, cs = literals ++ rest ∧ matchesChars g rest = true := by
  induction literals generalizing cs with
  | nil => simp
  | cons c literals ih =>
    -- the text has to go on as the literals do
    cases cs with
    | nil =>
      have hstep : matchesChars ((c :: literals).map .literal ++ g) [] = false := rfl
      rw [hstep]
      simp
    | cons x xs =>
      have hstep : matchesChars ((c :: literals).map .literal ++ g) (x :: xs) =
          (x == c && matchesChars (literals.map .literal ++ g) xs) := rfl
      rw [hstep, Bool.and_eq_true, beq_iff_eq, ih]
      constructor
      · rintro ⟨rfl, rest, rfl, h⟩
        exact ⟨rest, rfl, h⟩
      · rintro ⟨rest, hcs, h⟩
        rw [List.cons_append, List.cons.injEq] at hcs
        exact ⟨hcs.1, rest, hcs.2, h⟩

/-! ## Expressions -/

/-- Literals with stars between them match the texts that the literals cover. -/
theorem matchesChars_iff {first cs : List Char} {more : List (List Char)} (h : ∀ literal ∈ first :: more, '*' ∉ literal) :
    matchesChars ((first ++ more.flatMap ('*' :: ·)).map pieceOf) cs = true ↔ Covers first more cs := by
  -- on the literals: the first one and the star behind it are taken off, and the next one is the first of the rest
  induction more generalizing first cs with
  | nil =>
    have hfirst : '*' ∉ first := h first (List.mem_cons_self ..)
    rw [List.flatMap_nil, List.map_append, map_pieceOf_of_not_mem hfirst, List.map_nil, matchesChars_literals_iff, covers_nil]
    simp [matchesChars]
  | cons next more ih =>
    rw [List.forall_mem_cons] at h
    have hstar : matchesChars (pieceOf '*' :: (next ++ more.flatMap ('*' :: ·)).map pieceOf) =
        skip (matchesChars ((next ++ more.flatMap ('*' :: ·)).map pieceOf)) := rfl
    rw [List.flatMap_cons, List.cons_append, List.map_append, map_pieceOf_of_not_mem h.1, List.map_cons,
      matchesChars_literals_iff, covers_cons, hstar]
    simp only [skip_iff, ih h.2]
    constructor
    · rintro ⟨_, rfl, run, rest, rfl, hrun, hrest⟩
      exact ⟨run, rest, rfl, hrun, hrest⟩
    · rintro ⟨run, rest, rfl, hrun, hrest⟩
      exact ⟨run ++ rest, rfl, run, rest, rfl, hrun, hrest⟩

/-- The text consists of the literals of the expression, with runs without line breaks in the place of the stars. -/
def Fits (expression cs : List Char) : Prop :=
  ∃ first more, (∀ literal ∈ first :: more, '*' ∉ literal) ∧ expression = first ++ more.flatMap ('*' :: ·) ∧
    Covers first more cs

/-- An expression matches the texts that fit it, the empty one those that fit a star. -/
theorem matchesChars_ofChars_iff {expression cs : List Char} :
    matchesChars (ofChars expression) cs = true ↔ Fits (orStar expression) cs := by
  rw [ofChars_eq]
  constructor
  · intro h
    obtain ⟨first, more, -, hjoined, hliterals⟩ := joined_splitChars '*' (orStar expression)
    rw [← hjoined, matchesChars_iff hliterals] at h
    exact ⟨first, more, hliterals, hjoined.symm, h⟩
  · rintro ⟨first, more, hliterals, hjoined, h⟩
    rw [hjoined, matchesChars_iff hliterals]
    exact h

end Glob

end VersionAudit.Text
