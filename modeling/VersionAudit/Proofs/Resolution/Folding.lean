import Mathlib.Data.List.Find
import VersionAudit.Proofs.DepsDev.Selection
import VersionAudit.Proofs.Resolution.Gathering
import VersionAudit.Proofs.Sorting.Stability

/-!
# Folding requests

Requests are told apart three times when they are gathered: by the artifact, by the expected version, and by what they
say; and once more, more coarsely, by the name of the requester when a group is made. Each time the first one counts.

1. `keys_gathered`, `keys_find?_gathered`: the artifacts and the versions, as they were first seen.
2. `keys_ofList`, `map_expected_groups`: the order in which they end up.
3. `Folds`, `folds_ofList`: what stands in the map.
-/

namespace VersionAudit

namespace OrderedMap

variable {κ α : Type} [BEq κ]

/-- A key is added unless there is an equal one. -/
theorem keys_insert (m : OrderedMap κ α) (k : κ) (v : α) : (m.insert k v).keys = keepNew (· == ·) m.keys k := by
  rcases m with ⟨entries⟩
  unfold keys insert keepNew
  dsimp only
  induction entries with
  | nil => rfl
  | cons e es ih =>
    unfold put
    -- an equal key is where the value goes, and otherwise the rest decides
    cases he : e.1 == k with
    | true => simp [he]
    | false =>
      simp only [Bool.false_eq_true, if_false, List.map_cons, List.any_cons, he, Bool.false_or, ih]
      split <;> rfl

theorem keys_alter (m : OrderedMap κ α) (k : κ) (start : α) (f : α → α) :
    (m.alter k start f).keys = keepNew (· == ·) m.keys k :=
  keys_insert m k _

end OrderedMap

namespace ResolutionMap

/-! ## As first seen -/

/-- The last request is gathered last. -/
theorem gathered_concat (entries : List (Identity × VersionRequest)) (e : Identity × VersionRequest) :
    gathered (entries ++ [e]) = gather (gathered entries) e :=
  List.foldl_concat ..

/-- The artifacts gathered are the first of those that are equal. -/
theorem keys_gathered (entries : List (Identity × VersionRequest)) :
    (gathered entries).keys = firstsBy (· == ·) (entries.map (·.1)) := by
  induction entries using List.reverseRecOn with
  | nil => rfl
  | append_singleton entries e ih =>
    rw [gathered_concat, List.map_append, List.map_singleton, firstsBy_concat, ← ih]
    exact OrderedMap.keys_alter ..

/-- The versions gathered for an artifact. -/
theorem keys_find?_gathered (entries : List (Identity × VersionRequest)) (n : Identity) :
    (((gathered entries).find? n).getD ∅).keys =
      firstsBy (· == ·) ((entries.filter (·.1 == n)).map (·.2.expected)) := by
  -- on the last request, since that is the one that goes in last
  induction entries using List.reverseRecOn with
  | nil => rfl
  | append_singleton entries e ih =>
    rw [gathered_concat, List.filter_append, List.map_append]
    unfold gather
    rw [OrderedMap.find?_alter]
    cases he : e.1 == n with
    | true =>
      rw [List.filter_singleton, he, cond_true, List.map_singleton, firstsBy_concat, ← ih]
      simp only [if_true, Option.getD_some, OrderedMap.keys_alter]
    | false =>
      rw [List.filter_singleton, he, cond_false, List.map_nil, List.append_nil]
      exact ih

/-! ## In order -/

/-- The keys of the map are the first of the equal artifacts, sorted. -/
theorem keys_ofList (entries : List (Identity × VersionRequest)) :
    (ofList entries).keys = Sorting.sortBy Identity.before (firstsBy (· == ·) (entries.map (·.1))) := by
  rw [← keys_gathered]
  unfold OrderedMap.keys ofList
  dsimp only
  rw [List.map_map]
  exact (Sorting.sortBy_map (f := Prod.fst) (fun _ _ => rfl) (gathered entries).entries).symm

/-- The groups of an artifact stand for its versions, sorted. -/
theorem map_expected_groups (byVersion : OrderedMap Version (List Request)) :
    (groups byVersion).map (·.expected) = Version.sort byVersion.keys := by
  unfold groups Version.sort OrderedMap.keys
  have hmap : ∀ gs : List RequestGroup,
      (Sorting.sortBy RequestGroup.before gs).map (·.expected) = Sorting.sortBy Version.before (gs.map (·.expected)) :=
    fun gs => (Sorting.sortBy_map (fun _ _ => rfl) gs).symm
  rw [hmap, List.map_map]
  rfl

/-! ## What stands in the map -/

section Specification

variable (entries : List (Identity × VersionRequest))

/-- Whether an entry is about an artifact. -/
def isFor (n : Identity) (e : Identity × VersionRequest) : Bool :=
  e.1.isSame n

/-- Whether an entry asks for a version of an artifact. -/
def asksFor (n : Identity) (v : Version) (e : Identity × VersionRequest) : Bool :=
  isFor n e && e.2.expected.canonical == v.canonical

/-- Whether an entry asks for a version of an artifact in the name of a requester. -/
def isAskedBy (n : Identity) (v : Version) (name : String) (e : Identity × VersionRequest) : Bool :=
  asksFor n v e && e.2.request.requester.minimalName == name

/-- The requesters of a version of an artifact. -/
structure FoldsRequests (n : Identity) (g : RequestGroup) : Prop where
  /-- A request stands in the group just if it is the first one that its requester's name makes for the version. -/
  first : ∀ r, r ∈ g.requests ↔
    ∃ e, entries.find? (isAskedBy n g.expected r.requester.minimalName) = some e ∧ e.2.request = r
  /-- Everyone who asks for the version stands in the group. -/
  all : ∀ e ∈ entries, asksFor n g.expected e = true →
    ∃ r ∈ g.requests, r.requester.minimalName = e.2.request.requester.minimalName
  /-- Requests are ordered by the names of their requesters, which differ. -/
  sorted : g.requests.Pairwise fun r s => r.requester.minimalName < s.requester.minimalName

/-- The expected versions of an artifact. -/
structure FoldsVersions (n : Identity) (gs : List RequestGroup) : Prop where
  /-- A version is one that is asked for, as it was first written. -/
  first : ∀ g ∈ gs, ∃ e, entries.find? (asksFor n g.expected) = some e ∧ e.2.expected = g.expected
  /-- Every version that is asked for has a group. -/
  all : ∀ e ∈ entries, isFor n e = true → ∃ g ∈ gs, g.expected.canonical = e.2.expected.canonical
  /-- The versions of two groups differ. -/
  apart : gs.Pairwise fun g h => g.expected.canonical ≠ h.expected.canonical
  /-- The versions ascend if the order is transitive on them. -/
  ascending : Version.TransOn (gs.map (·.expected)) → gs.Pairwise fun g h => (g.expected.compare h.expected).isLE = true
  requests : ∀ g ∈ gs, FoldsRequests entries n g

/-- What a list of requests is folded into. -/
structure Folds (m : ResolutionMap) : Prop where
  /-- An artifact is one that is asked about, as it was first spelled. -/
  first : ∀ n ∈ m.keys, ∃ e, entries.find? (isFor n) = some e ∧ e.1 = n
  /-- Every artifact that is asked about stands in the map. -/
  all : ∀ e ∈ entries, ∃ n ∈ m.keys, isFor n e = true
  /-- Two artifacts of the map differ. -/
  apart : m.keys.Pairwise fun n k => n.isSame k = false
  /-- Artifacts are ordered by their names, and those of one name as they first came. -/
  sorted : m.keys.Pairwise fun n k => n.minimalName < k.minimalName ∨
    n.minimalName = k.minimalName ∧ entries.findIdx (isFor n) < entries.findIdx (isFor k)
  versions : ∀ n gs, (n, gs) ∈ m.entries → FoldsVersions entries n gs

end Specification

section Folds

variable {entries : List (Identity × VersionRequest)} {n : Identity} {gs : List RequestGroup} {g : RequestGroup}

variable (hkinds : ∀ e ∈ entries, e.1.kind? ≠ some "") (hn : n.kind? ≠ some "")

/-! ### Requesters -/

include hkinds hn in
theorem isFor_eq {e : Identity × VersionRequest} (he : e ∈ entries) : isFor n e = (e.1 == n) :=
  Identity.isSame_eq_beq (hkinds e he) hn

include hkinds hn in
theorem isAskedBy_eq {e : Identity × VersionRequest} (he : e ∈ entries) (v : Version) (name : String) :
    isAskedBy n v name e = isRequest n v name e := by
  unfold isAskedBy asksFor
  rw [isFor_eq hkinds hn he]
  rfl

/-- Requesters are sorted by a consistent comparison. -/
theorem consistent_before : Sorting.Consistent Request.before where
  asymm := by
    intro r s hrs
    unfold Request.before at hrs ⊢
    rw [decide_eq_true_iff] at hrs
    exact decide_eq_false hrs.asymm
  trans := by
    intro r s t hrs hst
    unfold Request.before at hrs hst ⊢
    rw [decide_eq_false_iff_not, not_lt] at hrs hst ⊢
    exact hrs.trans hst

/-- The requests of a group ascend strictly by their requesters. -/
theorem sorted_requests (hgs : (n, gs) ∈ (ofList entries).entries) (hg : g ∈ gs) :
    g.requests.Pairwise fun r s => r.requester.minimalName < s.requester.minimalName := by
  have hascends : Sorting.Ascends Request.before g.requests := by
    rw [(group_of_mem hgs hg).2]
    exact Sorting.ascends_sortBy consistent_before _
  refine (hascends.and (pairwise_requests hgs hg)).imp ?_
  rintro r s ⟨hnot, hne⟩
  unfold Request.before at hnot
  rw [decide_eq_false_iff_not, not_lt] at hnot
  exact lt_of_le_of_ne hnot hne

include hkinds hn

/-- A group keeps the first request of each requester, in order. -/
theorem folds_requests (hgs : (n, gs) ∈ (ofList entries).entries) (hg : g ∈ gs) : FoldsRequests entries n g where
  first := by
    intro r
    rw [mem_requests_iff hgs hg]
    -- no kind is an empty text, so that both questions are the same for these entries
    have hfind : entries.find? (isRequest n g.expected r.name) =
        entries.find? (isAskedBy n g.expected r.requester.minimalName) :=
      List.find?_congr fun e he => (isAskedBy_eq hkinds hn he _ _).symm
    rw [hfind]
  all := by
    intro e he hasks
    unfold asksFor at hasks
    rw [isFor_eq hkinds hn he, Bool.and_eq_true] at hasks
    exact exists_mem_of_entry hgs hg he hasks.1 hasks.2
  sorted := sorted_requests hgs hg

/-! ### Versions -/

/-- The groups of an artifact stand for the first of its equal versions, in order. -/
theorem folds_versions (hgs : (n, gs) ∈ (ofList entries).entries) : FoldsVersions entries n gs := by
  have hdistinct := (ordered_gathered entries).distinct
  obtain ⟨byVersion, hmem, hgroups⟩ := mem_ofList_entries.1 hgs
  have hkeys := keys_find?_gathered entries n
  rw [OrderedMap.find?_of_mem hdistinct hmem, Option.getD_some] at hkeys
  have hsorted := map_expected_groups byVersion
  rw [hgroups] at hsorted
  -- each group is a first version, each request has its group, no two are equal, and they ascend
  refine ⟨?_, ?_, ?_, ?_, fun g hg => folds_requests hkinds hn hgs hg⟩
  · intro g hg
    have hkey : g.expected ∈ byVersion.keys := by
      rw [← (Version.sort_perm _).mem_iff, ← hsorted]
      exact List.mem_map_of_mem hg
    rw [hkeys] at hkey
    have hfirst := (mem_firstsBy_iff Version.canonical).1 hkey
    rw [List.find?_map, List.find?_filter, Option.map_eq_some_iff] at hfirst
    obtain ⟨e, hfind, hexpected⟩ := hfirst
    refine ⟨e, ?_, hexpected⟩
    rw [← hfind]
    refine List.find?_congr fun e he => ?_
    unfold asksFor
    rw [isFor_eq hkinds hn he, Bool.eq_iff_iff]
    simp
  · intro e he hfor
    rw [isFor_eq hkinds hn he] at hfor
    obtain ⟨g, hg, hsame⟩ := exists_group_of_mem hgs he hfor
    exact ⟨g, hg, Version.beq_iff.1 hsame⟩
  · refine (pairwise_groups hgs).imp ?_
    intro g h hgh hsame
    rw [Version.beq_iff.2 hsame] at hgh
    cases hgh
  · intro htrans
    have hperm : (gs.map (·.expected)).Perm byVersion.keys := by
      rw [hsorted]
      exact Version.sort_perm _
    have hascends := Version.sort_ascends (htrans.mono hperm.symm.subset)
    rw [← hsorted] at hascends
    exact List.pairwise_map.1 hascends

/-! ### Artifacts -/

omit hkinds hn in
/-- Elements are found at the same place by two properties that agree on the list. -/
theorem findIdx_congr {α : Type} {p q : α → Bool} {xs : List α} (h : ∀ x ∈ xs, p x = q x) :
    xs.findIdx p = xs.findIdx q := by
  induction xs with
  | nil => rfl
  | cons x xs ih =>
    rw [List.forall_mem_cons] at h
    rw [List.findIdx_cons, List.findIdx_cons, h.1, ih h.2]

omit hn in
theorem kind?_of_mem_keys (hkey : n ∈ (ofList entries).keys) : n.kind? ≠ some "" := by
  rw [keys_ofList, Sorting.mem_sortBy] at hkey
  obtain ⟨e, he, rfl⟩ := List.mem_map.1 (mem_of_mem_firstsBy hkey)
  exact hkinds e he

omit hkinds hn in
/-- Artifacts are sorted by a consistent comparison. -/
theorem consistent_identities : Sorting.Consistent Identity.before where
  asymm := by
    intro m n hmn
    rw [Identity.before_iff] at hmn
    rw [← Bool.not_eq_true, Identity.before_iff]
    exact hmn.asymm
  trans := by
    intro k m n hkm hmn
    rw [← Bool.not_eq_true, Identity.before_iff, not_lt] at hkm hmn ⊢
    exact hkm.trans hmn

omit hn in
/-- The artifacts ascend by their minimal names, and those with one minimal name stand as they came first. -/
theorem sorted_keys : (ofList entries).keys.Pairwise fun n k => n.minimalName < k.minimalName ∨
    n.minimalName = k.minimalName ∧ entries.findIdx (isFor n) < entries.findIdx (isFor k) := by
  have hfirsts : (firstsBy (· == ·) (entries.map (·.1))).Pairwise fun n k =>
      (entries.map (·.1)).findIdx (·.key == n.key) < (entries.map (·.1)).findIdx (·.key == k.key) :=
    pairwise_findIdx_firstsBy Identity.key _
  have hplace : ∀ n ∈ (ofList entries).keys,
      (entries.map (·.1)).findIdx (·.key == n.key) = entries.findIdx (isFor n) := by
    intro n hkey
    rw [List.findIdx_map]
    refine findIdx_congr fun e he => ?_
    exact (isFor_eq hkinds (kind?_of_mem_keys hkinds hkey) he).symm
  -- sorting is stable: artifacts of one minimal name stay in the order of their first requests
  have hkeys := Sorting.pairwise_sortBy consistent_identities hfirsts
  rw [← keys_ofList] at hkeys
  refine hkeys.imp_of_mem ?_
  rintro n k hn hk ⟨hnot, hequal⟩
  rw [← Bool.not_eq_true, Identity.before_iff, not_lt] at hnot
  rw [← hplace n hn, ← hplace k hk]
  refine hnot.lt_or_eq.imp_right fun hsame => ⟨hsame, hequal ?_⟩
  rw [← Bool.not_eq_true, Identity.before_iff, hsame]
  exact lt_irrefl _

end Folds

/-- If no kind is given as an empty one, requests are folded into a map that keeps the first of each. -/
theorem folds_ofList {entries : List (Identity × VersionRequest)} (hkinds : ∀ e ∈ entries, e.1.kind? ≠ some "") :
    Folds entries (ofList entries) where
  first := by
    intro n hkey
    have hn := kind?_of_mem_keys hkinds hkey
    rw [keys_ofList, Sorting.mem_sortBy] at hkey
    -- the key is the first of the equal artifacts, and so belongs to the first request for it
    have hfirst := (mem_firstsBy_iff Identity.key).1 hkey
    rw [List.find?_map, Option.map_eq_some_iff] at hfirst
    obtain ⟨e, hfind, hspelled⟩ := hfirst
    refine ⟨e, ?_, hspelled⟩
    rw [← hfind]
    exact List.find?_congr fun e he => isFor_eq hkinds hn he
  all := by
    intro e he
    obtain ⟨n, gs, hgs, hsame, -⟩ := exists_group he
    have hkey : n ∈ (ofList entries).keys := List.mem_map_of_mem hgs
    refine ⟨n, hkey, ?_⟩
    rw [isFor_eq hkinds (kind?_of_mem_keys hkinds hkey) he]
    exact BEq.symm hsame
  apart := by
    have hdistinct : (ofList entries).keys.Pairwise fun n k => (n == k) = false :=
      List.pairwise_map.2 (distinct_ofList entries)
    refine hdistinct.imp_of_mem fun {n k} hn hk hnk => ?_
    rw [Identity.isSame_eq_beq (kind?_of_mem_keys hkinds hn) (kind?_of_mem_keys hkinds hk), hnk]
  sorted := sorted_keys hkinds
  versions := by
    intro n gs hgs
    exact folds_versions hkinds (kind?_of_mem_keys hkinds (List.mem_map_of_mem hgs)) hgs

namespace Twice

/-- An artifact, and its tests in two spellings. -/
def lib : Identity := ⟨"org", "lib", some ("jar", none)⟩

def tests : Identity := ⟨"org", "lib", some ("test-jar", none)⟩

def classifiedTests : Identity := ⟨"org", "lib", some ("jar", some "tests")⟩

def base : Identity := ⟨"org", "base", none⟩

def request (name : String) (direct : Bool) : Request := { requester := ⟨"org", name, none⟩, direct }

/-- The tests are asked for in two spellings, and before the artifact itself. The versions 1.0 and 1 are equal, and
one requester says two things about them. -/
def entries : List (Identity × VersionRequest) :=
  [(tests, ⟨⟨"2"⟩, request "b" true⟩), (lib, ⟨⟨"1"⟩, request "b" false⟩),
    (classifiedTests, ⟨⟨"1.0"⟩, request "c" false⟩), (tests, ⟨⟨"1"⟩, request "a" true⟩),
    (base, ⟨⟨"1"⟩, request "a" false⟩), (tests, ⟨⟨"1"⟩, request "c" true⟩)]

end Twice

/-- Of the two spellings and of the equal versions the first ones are kept, and so is what a requester says first. -/
theorem folds_ofList_twice : (∀ e ∈ Twice.entries, e.1.kind? ≠ some "") ∧ Folds Twice.entries (ofList Twice.entries) ∧
    (ofList Twice.entries).keys = [Twice.base, Twice.tests, Twice.lib] ∧
    ((ofList Twice.entries).values.map fun gs =>
        gs.map fun g => (g.expected.text, g.requests.map fun r => (r.name, r.direct))) =
      [[("1", [("org:a", false)])],
        [("1.0", [("org:a", true), ("org:c", false)]), ("2", [("org:b", true)])],
        [("1", [("org:b", false)])]] := by
  have hkinds : ∀ e ∈ Twice.entries, e.1.kind? ≠ some "" := by decide +kernel
  exact ⟨hkinds, folds_ofList hkinds, by decide +kernel, by decide +kernel⟩

end ResolutionMap

end VersionAudit
