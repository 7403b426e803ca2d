import VersionAudit.DepsDev.Resolver
import VersionAudit.Proofs.Sorting.Ascending
import VersionAudit.Proofs.Step
import VersionAudit.Proofs.Version.Intervals

/-!
# The version selected from a range

For a dependency that asks for a range, the published versions are fetched, those in the range are put in ascending
order, and the last one is taken. Where the order is transitive on what is published, no published version in the range
is above it.

1. `VersionRange.Holds`: the versions in a range, by the bounds of its intervals.
2. `Version.sort_ascends`: sorted versions ascend. `VersionRange.select_ascends`: so do those selected from a range.
3. `run_versions`, `run_chooseVersion_range`: what is asked of a service for a range.
4. `chooseVersion_highest`: the highest published version in the range is chosen.
-/

namespace VersionAudit

/-! ## Ascending versions -/

namespace Version

/-- No version stands behind one that is above it. -/
def Ascending (vs : List Version) : Prop :=
  vs.Pairwise fun v w => (v.compare w).isLE = true

theorem sort_perm (vs : List Version) : (sort vs).Perm vs :=
  Sorting.sortBy_perm before vs

/-- Versions are sorted in ascending order if the order is transitive on them. -/
theorem sort_ascends {vs : List Version} (h : TransOn vs) : Ascending (sort vs) := by
  have hasymm : ∀ a ∈ vs, ∀ b ∈ vs, a.before b = true → b.before a = false := by
    intro a _ b _ hab
    have hlt : a.compare b = .lt := by simpa [before] using hab
    rw [before_eq_false_iff, hlt]
    rfl
  -- what is asked of a sort is about pairs that are not in reverse order
  have htrans : ∀ a ∈ vs, ∀ b ∈ vs, ∀ c ∈ vs, b.before a = false → c.before b = false → c.before a = false := by
    intro a ha b hb c hc hab hbc
    rw [before_eq_false_iff] at hab hbc ⊢
    exact h a ha b hb c hc hab hbc
  refine (Sorting.ascends_sortBy_of_mem hasymm htrans).imp ?_
  intro v w hvw
  exact before_eq_false_iff.1 hvw

/-- The last of ascending versions is not below any of them. -/
theorem Ascending.isLE_getLast {vs : List Version} (h : Ascending vs) {w : Version} (hw : vs.getLast? = some w) :
    ∀ v ∈ vs, (v.compare w).isLE = true := by
  obtain ⟨front, rfl⟩ := List.getLast?_eq_some_iff.1 hw
  intro v hv
  rcases List.mem_append.1 hv with hv | hv
  · exact (List.pairwise_append.1 h).2.2 v hv w List.mem_cons_self
  · rw [List.mem_singleton.1 hv, ← before_eq_false_iff]
    exact before_self_eq_false w

end Version

/-! ## Versions in a range -/

namespace VersionRange

/-- The versions in a range: those of its intervals. -/
def Holds (r : VersionRange) (v : Version) : Prop :=
  ∃ i ∈ r.intervals, i.Holds v

instance (r : VersionRange) (v : Version) : Decidable (r.Holds v) :=
  inferInstanceAs (Decidable (∃ i ∈ r.intervals, i.Holds v))

/-- A range has the versions that one of its intervals holds. -/
theorem contains_eq {r : VersionRange} (h : r.isRange = true) (v : Version) : r.contains v = decide (r.Holds v) := by
  rcases r with ⟨text, ⟨w⟩ | ⟨parts⟩⟩
  · cases h
  · rw [Bool.eq_iff_iff, decide_eq_true_iff]
    show parts.any (·.contains v) = true ↔ ∃ i ∈ parts, i.Holds v
    simp only [List.any_eq_true, Interval.contains_iff]

/-- The selected versions are the candidates in the range, sorted. -/
theorem select_eq {r : VersionRange} (h : r.isRange = true) (candidates : List Version) :
    r.select candidates = Version.sort (candidates.filter fun v => decide (r.Holds v)) := by
  have hfilter : candidates.filter r.contains = candidates.filter fun v => decide (r.Holds v) :=
    List.filter_congr fun v _ => contains_eq h v
  rw [← hfilter]
  rcases r with ⟨text, ⟨w⟩ | ⟨parts⟩⟩
  · cases h
  · rfl

/-- Selection drops the other candidates and no more. -/
theorem select_perm {r : VersionRange} (h : r.isRange = true) (candidates : List Version) :
    (r.select candidates).Perm (candidates.filter fun v => decide (r.Holds v)) := by
  rw [select_eq h]
  exact Version.sort_perm _

/-- The selected versions ascend if the order is transitive on the candidates. -/
theorem select_ascends {r : VersionRange} (h : r.isRange = true) {candidates : List Version}
    (htrans : Version.TransOn candidates) : Version.Ascending (r.select candidates) := by
  rw [select_eq h]
  exact Version.sort_ascends (htrans.mono (List.filter_subset_self _))

theorem mem_select {r : VersionRange} (h : r.isRange = true) {candidates : List Version} {v : Version} :
    v ∈ r.select candidates ↔ v ∈ candidates ∧ r.Holds v := by
  rw [(select_perm h candidates).mem_iff, List.mem_filter, decide_eq_true_iff]

end VersionRange

namespace DepsDev

/-! ## Asking the service -/

section Asking

variable {σ : Type} {t : Transport σ} {timeout : Int} {range : VersionRange} {published : List String}
  {l l' : Ledger (Memory σ)}

/-- The versions of an artifact that is asked for by a range are the published ones in the range. -/
theorem run_versions {a : Artifact} (hread : VersionRange.read a.version = .ok range) (hrange : range.isRange = true)
    (hfetch : (fetchVersions t timeout a.group a.name).run l = (.ok published, l')) :
    (versions t timeout a).run l = (.ok (range.select (published.map Version.mk)), l') := by
  have hnone : range.recommended = none := Option.isNone_iff_eq_none.1 hrange
  unfold versions
  rw [hread]
  dsimp only
  rw [hnone]
  dsimp only
  rw [Step.run_bind, hfetch]
  rfl

/-- The last of them is chosen. -/
theorem run_chooseVersion_range {d : Dependency} (hread : VersionRange.read d.artifact.version = .ok range)
    (hrange : range.isRange = true)
    (hfetch : (fetchVersions t timeout d.artifact.group d.artifact.name).run l = (.ok published, l')) :
    (chooseVersion t timeout d).run l =
      (.ok ((range.select (published.map Version.mk)).getLast?.map (·.text)), l') := by
  -- an empty version cannot be read as a range
  have hne : d.artifact.version ≠ "" := by
    intro hempty
    rw [hempty] at hread
    cases hread
  have hnot : ¬ (!range.isRange) = true := by simp [hrange]
  unfold chooseVersion
  rw [if_neg hne, hread]
  dsimp only
  rw [if_neg hnot, Step.run_bind, run_versions hread hrange hfetch]
  rfl

/-- For a range, the published versions in it are found, in ascending order. None is chosen if there are none, and else
one that is published and in the range, and no other such version is above it. -/
theorem chooseVersion_highest {d : Dependency} (hread : VersionRange.read d.artifact.version = .ok range)
    (hrange : range.isRange = true)
    (hfetch : (fetchVersions t timeout d.artifact.group d.artifact.name).run l = (.ok published, l'))
    (htrans : Version.TransOn (published.map Version.mk)) :
    ∃ matching choice, (versions t timeout d.artifact).run l = (.ok matching, l') ∧
      matching.Perm ((published.map Version.mk).filter fun v => decide (range.Holds v)) ∧
      Version.Ascending matching ∧
      (chooseVersion t timeout d).run l = (.ok choice, l') ∧
      (choice = none ↔ ∀ v ∈ published, ¬ range.Holds ⟨v⟩) ∧
      ∀ w, choice = some w → w ∈ published ∧ range.Holds ⟨w⟩ ∧
        ∀ v ∈ published, range.Holds ⟨v⟩ → Version.before ⟨w⟩ ⟨v⟩ = false := by
  -- what is chosen is a text, what is selected are versions
  have hmem : ∀ v : String, (⟨v⟩ : Version) ∈ range.select (published.map Version.mk) ↔
      v ∈ published ∧ range.Holds ⟨v⟩ := by
    intro v
    rw [VersionRange.mem_select hrange, List.mem_map]
    simp
  have hascends := VersionRange.select_ascends hrange htrans
  refine ⟨_, _, run_versions hread hrange hfetch, VersionRange.select_perm hrange _, hascends,
    run_chooseVersion_range hread hrange hfetch, ?_, ?_⟩
  · rw [Option.map_eq_none_iff, List.getLast?_eq_none_iff, List.eq_nil_iff_forall_not_mem]
    constructor
    · intro hnone v hv hholds
      exact hnone ⟨v⟩ ((hmem v).2 ⟨hv, hholds⟩)
    · rintro hnone ⟨v⟩ hv
      exact hnone v ((hmem v).1 hv).1 ((hmem v).1 hv).2
  · intro w hw
    obtain ⟨⟨w⟩, hlast, rfl⟩ := Option.map_eq_some_iff.1 hw
    rcases (hmem w).1 (List.mem_of_getLast? hlast) with ⟨hpublished, hholds⟩
    refine ⟨hpublished, hholds, ?_⟩
    intro v hv hvholds
    exact Version.before_eq_false_iff.2 (hascends.isLE_getLast hlast ⟨v⟩ ((hmem v).2 ⟨hv, hvholds⟩))

end Asking

/-! ## A half open range -/

namespace HalfOpen

def range : VersionRange :=
  ⟨"[1.0,2.0)", .intervals [⟨some ⟨"1.0"⟩, true, some ⟨"2.0"⟩, false⟩]⟩

def request : Dependency :=
  { artifact := { group := "g", name := "d", version := "[1.0,2.0)" } }

/-- The published versions, one of them twice. -/
def published : List String :=
  ["2.0", "1.5", "0.9", "1.10", "1.5"]

/-- A service that is never asked, since the versions are known. -/
def silent : Transport Unit :=
  ⟨fun _ s => (.failed "silent", s)⟩

def known : Ledger (Memory Unit) :=
  ⟨{ transport := (), versions := .ofList [(("g", "d"), some published)] }, []⟩

/-- What is chosen from a range that excludes the highest published version. -/
theorem chooseVersion_highest_half_open :
    ∃ matching choice, (versions silent 30 request.artifact).run known = (.ok matching, known) ∧
      matching.Perm ((published.map Version.mk).filter fun v => decide (range.Holds v)) ∧
      Version.Ascending matching ∧
      (chooseVersion silent 30 request).run known = (.ok choice, known) ∧
      (choice = none ↔ ∀ v ∈ published, ¬ range.Holds ⟨v⟩) ∧
      ∀ w, choice = some w → w ∈ published ∧ range.Holds ⟨w⟩ ∧
        ∀ v ∈ published, range.Holds ⟨v⟩ → Version.before ⟨w⟩ ⟨v⟩ = false := by
  have hread : VersionRange.read request.artifact.version = .ok range := rfl
  have hfetch : (fetchVersions silent 30 request.artifact.group request.artifact.name).run known =
      (.ok published, known) := rfl
  -- few versions were published, so that all triples can be looked at
  have htrans : Version.TransOn (published.map Version.mk) := by decide +kernel
  exact chooseVersion_highest hread rfl hfetch htrans

end HalfOpen

end DepsDev

end VersionAudit
