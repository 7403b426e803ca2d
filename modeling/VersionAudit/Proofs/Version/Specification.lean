import VersionAudit.Proofs.Except
import VersionAudit.Proofs.Text.Blank
import VersionAudit.Version.Range

/-!
# Reading a specification

1. `VersionRange.read_of_plain`: what does not begin with a bracket recommends a version, the text without the blanks
   around it. `plain_of_recommended`: nothing else does.
2. `VersionRange.recommended_of_getLast?`: a set of intervals ends in a bracket or a comma.
-/

namespace VersionAudit

namespace VersionRange

/-! ## Plain specifications -/

/-- A specification that does not begin with a bracket. -/
def Plain (spec : String) : Prop :=
  ∃ c cs, Text.trimChars spec.toList = c :: cs ∧ c ≠ '[' ∧ c ≠ '('

/-- A plain specification is read as the version that it names. -/
theorem read_of_plain {spec : String} (h : Plain spec) : read spec = .ok ⟨spec, .recommended ⟨Text.trim spec⟩⟩ := by
  obtain ⟨c, cs, htrim, hsquare, hround⟩ := h
  unfold read Text.trim
  rw [htrim]
  have hopen : ((c :: cs).head? == some '[' || (c :: cs).head? == some '(') = false := by
    simp [hsquare, hround]
  dsimp only
  unfold readIntervals
  rw [hopen]
  rfl

/-- Reading intervals: either no bracket opens one, or the first of them is read and does not overlap with the one
before it, and then those behind it are read. -/
theorem readIntervals_ok {spec : String} {fuel : Nat} {previous : Option Version} {cs rest : List Char}
    {parts : List Interval} (h : readIntervals spec (fuel + 1) previous cs = .ok (parts, rest)) :
    (cs.head? ≠ some '[' ∧ cs.head? ≠ some '(' ∧ parts = [] ∧ rest = cs) ∨
      ∃ front behind interval more, cutInterval cs = some (front, behind) ∧ readInterval front = .ok interval ∧
        overlaps previous interval = false ∧ parts = interval :: more ∧
        readIntervals spec fuel interval.upper (afterInterval behind) = .ok (more, rest) := by
  -- a bracket opens the next interval, or none is left to read
  unfold readIntervals at h
  split at h
  · split at h
    · cases h
    · rename_i front behind hcut
      obtain ⟨interval, hinterval, h⟩ := Except.bind_ok_iff.1 h
      split at h
      · cases h
      · rename_i hoverlaps
        obtain ⟨⟨more, left⟩, hmore, h⟩ := Except.bind_ok_iff.1 h
        obtain ⟨rfl, rfl⟩ := Prod.mk.inj (Except.ok.inj h)
        rw [Bool.not_eq_true] at hoverlaps
        exact .inr ⟨front, behind, interval, more, hcut, hinterval, hoverlaps, rfl, hmore⟩
  · rename_i hopen
    obtain ⟨rfl, rfl⟩ := Prod.mk.inj (Except.ok.inj h)
    simp only [Bool.or_eq_true, beq_iff_eq, not_or] at hopen
    exact .inl ⟨hopen.1, hopen.2, rfl, rfl⟩

/-- What was read without a fault: intervals up to the end of the text, or no interval at all. -/
theorem read_ok {spec : String} {range : VersionRange} (h : read spec = .ok range) :
    Text.trimChars spec.toList ≠ [] ∧ ∃ parts rest,
      readIntervals spec ((Text.trimChars spec.toList).length + 1) none (Text.trimChars spec.toList) =
          .ok (parts, rest) ∧
        (rest = [] ∧ range = ⟨spec, .intervals parts⟩ ∨
          rest ≠ [] ∧ parts = [] ∧ range = ⟨spec, .recommended ⟨String.ofList rest⟩⟩) := by
  unfold read at h
  dsimp only at h
  split at h
  · cases h
  · rename_i hne
    -- what is left over is a fault behind intervals, and a version if there are none
    obtain ⟨⟨parts, rest⟩, hparts, h⟩ := Except.bind_ok_iff.1 h
    refine ⟨fun hnil => hne (List.isEmpty_iff.2 hnil), parts, rest, hparts, ?_⟩
    dsimp only at h
    split at h
    · exact .inl ⟨rfl, (Except.ok.inj h).symm⟩
    · rename_i hrest
      exact .inr ⟨hrest, rfl, (Except.ok.inj h).symm⟩
    · cases h

/-- Only a plain specification recommends a version. -/
theorem plain_of_recommended {spec : String} {range : VersionRange} {v : Version} (h : read spec = .ok range)
    (hv : range.recommended = some v) : Plain spec := by
  obtain ⟨hne, parts, rest, hparts, ⟨rfl, rfl⟩ | ⟨-, rfl, rfl⟩⟩ := read_ok h
  · cases hv
  · rcases readIntervals_ok hparts with ⟨hsquare, hround, -, -⟩ | ⟨_, _, _, _, -, -, -, hcons, -⟩
    · obtain ⟨c, cs, hcs⟩ := List.exists_cons_of_ne_nil hne
      rw [hcs] at hsquare hround
      exact ⟨c, cs, hcs, by simpa using hsquare, by simpa using hround⟩
    · cases hcons

/-! ## The end of a set of intervals -/

/-- An interval ends in a closing bracket. -/
theorem cutInterval_eq {cs front behind : List Char} (h : cutInterval cs = some (front, behind)) :
    cs = front ++ behind ∧ (front.getLast? = some ')' ∨ front.getLast? = some ']') := by
  -- the first closing bracket ends the interval
  induction cs generalizing front with
  | nil => cases h
  | cons c cs ih =>
    unfold cutInterval at h
    split at h
    · rename_i hclose
      obtain ⟨rfl, rfl⟩ := Prod.mk.inj (Option.some.inj h)
      simpa using hclose
    · obtain ⟨⟨front', behind'⟩, hcut, heq⟩ := Option.map_eq_some_iff.1 h
      obtain ⟨rfl, rfl⟩ := Prod.mk.inj heq
      obtain ⟨rfl, hlast⟩ := ih hcut
      refine ⟨rfl, ?_⟩
      rw [List.getLast?_cons]
      rcases hlast with hlast | hlast
      · simp [hlast]
      · simp [hlast]

section Ends

variable {c : Char} (hblank : Text.isBlank c = false) (hround : c ≠ ')') (hsquare : c ≠ ']') (hcomma : c ≠ ',')

include hblank hcomma in
/-- The sign between two intervals is not the last character. -/
theorem getLast?_afterInterval {cs : List Char} (h : cs.getLast? = some c) :
    (afterInterval cs).getLast? = some c := by
  have htrim := Text.getLast?_trimChars h hblank
  unfold afterInterval
  split
  · rename_i rest hrest
    rw [hrest] at htrim
    cases rest with
    | nil => exact absurd (Option.some.inj htrim).symm hcomma
    | cons d rest =>
      rw [List.getLast?_cons_cons] at htrim
      exact Text.getLast?_trimChars htrim hblank
  · exact htrim

include hblank hround hsquare hcomma

/-- A last character that ends no interval is left over. -/
theorem getLast?_of_readIntervals {spec : String} {fuel : Nat} {previous : Option Version} {cs rest : List Char}
    {parts : List Interval} (h : readIntervals spec fuel previous cs = .ok (parts, rest))
    (hlast : cs.getLast? = some c) : rest.getLast? = some c := by
  induction fuel generalizing previous cs parts with
  | zero =>
    obtain ⟨-, rfl⟩ := Prod.mk.inj (Except.ok.inj h)
    exact hlast
  | succ fuel ih =>
    rcases readIntervals_ok h with ⟨-, -, -, rfl⟩ | ⟨front, behind, interval, more, hcut, -, -, -, hmore⟩
    · exact hlast
    · obtain ⟨rfl, hclose⟩ := cutInterval_eq hcut
      refine ih hmore (getLast?_afterInterval hblank hcomma ?_)
      rw [List.getLast?_append] at hlast
      -- an interval takes no character behind its bracket
      cases hbehind : behind.getLast? with
      | some d =>
        rw [hbehind] at hlast
        exact hlast
      | none =>
        rw [hbehind, Option.none_or] at hlast
        rcases hclose with hclose | hclose
        · exact absurd (Option.some.inj (hlast.symm.trans hclose)) hround
        · exact absurd (Option.some.inj (hlast.symm.trans hclose)) hsquare

/-- A specification with such a last character is no set of intervals. -/
theorem recommended_of_getLast? {spec : String} {range : VersionRange} (h : read spec = .ok range)
    (hlast : spec.toList.getLast? = some c) : ∃ v, range.recommended = some v := by
  obtain ⟨-, parts, rest, hparts, ⟨rfl, rfl⟩ | ⟨-, rfl, rfl⟩⟩ := read_ok h
  · have hleft := getLast?_of_readIntervals hblank hround hsquare hcomma hparts (Text.getLast?_trimChars hlast hblank)
    cases hleft
  · exact ⟨_, rfl⟩

end Ends

end VersionRange

end VersionAudit
