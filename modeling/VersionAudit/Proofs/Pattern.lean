import VersionAudit.Pattern
import VersionAudit.Proofs.Text.Glob

/-!
# What patterns select

A pattern has a part for the group and, behind a colon, one for the name. Both are wildcard expressions, and what is
missing or blank stands for a star.

`selects_iff_fits`: the patterns with at most one colon are those that can be read, and they select the identities
whose group and name fit the two parts.
-/

namespace VersionAudit.Pattern

/-- The expression for the group. -/
def groupPart (text : String) : List Char :=
  Text.trimChars (Text.cut ':' text.toList).1

/-- The expression for the name, empty if there is no colon. -/
def namePart (text : String) : List Char :=
  Text.trimChars ((Text.cut ':' text.toList).2.getD [])

/-- A pattern is read as its two parts, unless there is a second colon. -/
theorem read_eq (text : String) :
    read text = if 1 < text.toList.count ':' then .error (.malformed text)
      else .ok ⟨text, .ofChars (groupPart text), .ofChars (namePart text)⟩ := by
  obtain ⟨first, more, hsplit, hjoined, hpieces⟩ := Text.joined_splitChars ':' text.toList
  have hfirst : ':' ∉ first := hpieces first (List.mem_cons_self ..)
  have hcount : more.length = text.toList.count ':' := by
    have hlength := Text.length_splitChars ':' text.toList
    rw [hsplit, List.length_cons] at hlength
    omega
  unfold read groupPart namePart
  rw [hsplit, ← hcount]
  -- the first cut and the pieces agree as long as there are no more than two pieces
  match more with
  | [] =>
    have hcut := Text.cut_joined hfirst none
    rw [List.flatMap_nil] at hjoined
    rw [Option.map_none, Option.getD_none, hjoined] at hcut
    rw [hcut]
    rfl
  | [second] =>
    have hcut := Text.cut_joined hfirst (some second)
    rw [List.flatMap_singleton] at hjoined
    rw [Option.map_some, Option.getD_some, hjoined] at hcut
    rw [hcut]
    rfl
  | _ :: _ :: more =>
    rw [if_pos (by simp)]
    rfl

/-- A pattern cannot be read just if it has more than one colon. One that is read selects the identities whose group
fits the part in front of the colon and whose name fits the part behind it, without the blanks at their ends, where a
part that is missing or of which nothing is left stands for a star. -/
theorem selects_iff_fits (text : String) :
    (read text = .error (.malformed text) ↔ 1 < text.toList.count ':') ∧
    ((∃ p, read text = .ok p) ↔ text.toList.count ':' ≤ 1) ∧
    ∀ p, read text = .ok p → ∀ n : Identity, p.selects n = true ↔
      Text.Glob.Fits (Text.Glob.orStar (groupPart text)) n.group.toList ∧
        Text.Glob.Fits (Text.Glob.orStar (namePart text)) n.name.toList := by
  have hread := read_eq text
  refine ⟨?_, ?_, ?_⟩
  · rw [hread]
    split <;> simp_all
  · rw [hread]
    split <;> simp_all
  · intro p hp n
    rw [hread] at hp
    split at hp
    · cases hp
    · obtain rfl := Except.ok.inj hp
      unfold selects Text.Glob.matchesText
      rw [Bool.and_eq_true, Text.Glob.matchesChars_ofChars_iff, Text.Glob.matchesChars_ofChars_iff]

end VersionAudit.Pattern
