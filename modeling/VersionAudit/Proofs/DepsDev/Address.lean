import VersionAudit.DepsDev.Address
import VersionAudit.Proofs.Text.Percent
import VersionAudit.Proofs.Text.Split

/-!
# Addresses are unambiguous

Names and versions are the only parts of an address that vary, and they are encoded without the characters that
separate the parts. So an address can be taken apart again, whatever the coordinates hold.

1. `not_mem_segment`: what a segment does not hold.
2. `split_graphAddress`: the parts of the address of a graph.
3. `graphAddress_eq_iff`, `packageAddress_ne_graphAddress`: which addresses are the same.
4. `addresses_unambiguous`: all of this together.
-/

namespace VersionAudit.DepsDev

open Text

/-- The characters that have a meaning in an address of their own, other than the sign of escapes. -/
def separators : List Char :=
  ['/', '?', '#', ':']

/-! ## Segments -/

theorem escaped_segment (s : String) : Escaped [] (segment s).toList :=
  escaped_percentEncode [] s

/-- None of the signs that separate segments occurs in one. -/
theorem not_mem_segment {c : Char} (h : c ∈ separators) (s : String) : c ∉ (segment s).toList := by
  obtain ⟨hreserved, hsign⟩ : isUnreserved c = false ∧ c ≠ '%' := by
    simp only [separators, List.mem_cons, List.not_mem_nil, or_false] at h
    rcases h with rfl | rfl | rfl | rfl <;> decide
  exact (escaped_segment s).not_mem hreserved List.not_mem_nil hsign

theorem percentDecode?_segment (s : String) : percentDecode? (segment s) = some s :=
  percentDecode?_percentEncode List.not_mem_nil s

/-- Different texts have different segments. -/
theorem segment_injective : Function.Injective segment :=
  percentEncode_injective List.not_mem_nil

/-! ## Addresses -/

/-- The address of a graph is made of two segments. -/
theorem toList_graphAddress (a : Artifact) :
    (graphAddress a).toList = packages.toList ++
      ((segment a.path).toList ++ '/' :: ("versions/".toList ++ ((segment a.version).toList ++ ":dependencies".toList))) := by
  have hseparator : "/versions/".toList = '/' :: "versions/".toList := rfl
  unfold graphAddress
  simp only [String.toList_append, hseparator, List.append_assoc, List.cons_append]

/-- The parts of the address of a graph. -/
def graphParts (a : Artifact) : List String :=
  ["https:", "", "api.deps.dev", "v3", "systems", "maven", "packages", segment a.path, "versions",
    segment a.version ++ ":dependencies"]

/-- Its parts stand between slashes. -/
theorem graphAddress_eq_intercalate (a : Artifact) : graphAddress a = String.intercalate "/" (graphParts a) := by
  apply String.toList_injective
  have hslash : "/" = String.ofList ['/'] := rfl
  have hpackages : packages.toList = "https://api.deps.dev/v3/systems/maven/packages/".toList := rfl
  unfold graphParts
  rw [hslash, toList_intercalate_cons, toList_graphAddress, hpackages]
  simp

/-- The address of a graph is taken apart into its parts. -/
theorem split_graphAddress (a : Artifact) : split '/' (graphAddress a) = graphParts a := by
  have hslash : ∀ s, '/' ∉ (segment s).toList := not_mem_segment (by decide)
  have hparts : ∀ part ∈ graphParts a, '/' ∉ part.toList := by
    simp [graphParts, hslash]
  rw [graphAddress_eq_intercalate]
  exact split_intercalate hparts

/-- Graphs have the same address if the names and versions of their artifacts are the same. -/
theorem graphAddress_eq_iff {a b : Artifact} :
    graphAddress a = graphAddress b ↔ a.path = b.path ∧ a.version = b.version := by
  have hslash : ∀ s, '/' ∉ (segment s).toList := not_mem_segment (by decide)
  constructor
  · intro h
    have hchars := congrArg String.toList h
    rw [toList_graphAddress, toList_graphAddress, List.append_cancel_left_eq] at hchars
    -- no part has a slash, so that the first slash ends the path
    obtain ⟨hpath, hrest⟩ := parts_eq_of_joined_eq (hslash _) (hslash _) hchars
    rw [List.append_cancel_left_eq, List.append_cancel_right_eq] at hrest
    exact ⟨segment_injective (String.toList_injective hpath), segment_injective (String.toList_injective hrest)⟩
  · rintro ⟨hpath, hversion⟩
    unfold graphAddress
    rw [hpath, hversion]

/-- What follows the name in the address of a graph does not occur in that of a package. -/
theorem packageAddress_ne_graphAddress (group name : String) (a : Artifact) :
    packageAddress group name ≠ graphAddress a := by
  intro h
  have hchars := congrArg String.toList h
  rw [toList_graphAddress] at hchars
  unfold packageAddress at hchars
  rw [String.toList_append, List.append_cancel_left_eq] at hchars
  -- the slash behind the name of the artifact would be in the name of the package
  have hmem : '/' ∈ (segment (group ++ ":" ++ name)).toList := by
    rw [hchars]
    exact List.mem_append_right _ (List.mem_cons_self ..)
  exact not_mem_segment (by decide) _ hmem

/-- Whatever coordinates and versions hold:

* The address of a graph has the name and the version in places of their own.
* Both are written as escapes and characters that need none, so without the characters that separate the parts of an
  address, and they are decoded to the name and to the version.
* Graphs have the same address just if the names and the versions are the same.
* No package has the address of a graph. -/
theorem addresses_unambiguous (a b : Artifact) (group name : String) :
    split '/' (graphAddress a) =
      ["https:", "", "api.deps.dev", "v3", "systems", "maven", "packages", segment (a.group ++ ":" ++ a.name), "versions",
        segment a.version ++ ":dependencies"] ∧
    (∀ s ∈ [a.group ++ ":" ++ a.name, a.version],
      Escaped [] (segment s).toList ∧ (∀ c ∈ separators, c ∉ (segment s).toList) ∧ percentDecode? (segment s) = some s) ∧
    (graphAddress a = graphAddress b ↔ a.group ++ ":" ++ a.name = b.group ++ ":" ++ b.name ∧ a.version = b.version) ∧
    packageAddress group name ≠ graphAddress a := by
  refine ⟨split_graphAddress a, ?_, graphAddress_eq_iff, packageAddress_ne_graphAddress group name a⟩
  intro s _
  exact ⟨escaped_segment s, fun c hc => not_mem_segment hc s, percentDecode?_segment s⟩

end VersionAudit.DepsDev
