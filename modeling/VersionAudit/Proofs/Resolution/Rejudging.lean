import VersionAudit.Proofs.Resolution.Gathering
import VersionAudit.Proofs.Sorting.Relabelling

/-!
# Verdicts do not show in the gathering

Requests are told apart, folded and ordered without a look at their verdicts. So the verdicts of a list of requests
may be changed before or after the list is gathered (`ofList_rejudge`), as long as the change depends on the
artifact and the version only.
-/

namespace VersionAudit

/-- The request with its verdict changed. -/
def Request.rejudge (q : Bool → Bool) (r : Request) : Request :=
  { r with conflict := q r.conflict }

/-- The group with the verdicts of all its requests changed. -/
def RequestGroup.rejudge (q : Bool → Bool) (g : RequestGroup) : RequestGroup :=
  ⟨g.expected, g.requests.map (·.rejudge q)⟩

/-- A change of verdicts, which depends on the artifact and the version that a request is for. -/
structure Rejudging where
  verdict : Identity → Version → Bool → Bool
  artifact_congr : ∀ m n, (m == n) = true → verdict m = verdict n
  version_congr : ∀ n v w, (v == w) = true → verdict n v = verdict n w

namespace ResolutionMap

variable (q : Rejudging)

/-- The request for a version of an artifact with its verdict changed. -/
def rejudgeEntry (e : Identity × VersionRequest) : Identity × VersionRequest :=
  (e.1, ⟨e.2.expected, e.2.request.rejudge (q.verdict e.1 e.2.expected)⟩)

/-- The map with the verdicts of all its requests changed. -/
def rejudge (m : ResolutionMap) : ResolutionMap :=
  ⟨m.entries.map fun e => (e.1, e.2.map fun g => g.rejudge (q.verdict e.1 g.expected))⟩

/-- The gathered requests of one artifact with their verdicts changed. -/
def rejudgeVersions (n : Identity) (byVersion : OrderedMap Version (List Request)) :
    OrderedMap Version (List Request) :=
  byVersion.mapValues fun v requests => requests.map (·.rejudge (q.verdict n v))

/-- Verdicts may be changed before or after one more request is gathered. -/
theorem gather_rejudge (m : Gathered) (e : Identity × VersionRequest) :
    gather (m.mapValues (rejudgeVersions q)) (rejudgeEntry q e) = (gather m e).mapValues (rejudgeVersions q) := by
  unfold gather
  -- the map by artifacts is changed at one key, and there the map by versions
  refine OrderedMap.alter_mapValues ?_ m rfl fun byVersion => ?_
  · intro n hn
    unfold rejudgeVersions
    rw [q.artifact_congr _ _ hn]
  · refine OrderedMap.alter_mapValues ?_ byVersion rfl fun requests => ?_
    · intro v hv
      rw [q.version_congr _ _ _ hv]
    · have hsame (a b : Request) : (a.rejudge (q.verdict e.1 e.2.expected) ==
          b.rejudge (q.verdict e.1 e.2.expected)) = (a == b) := rfl
      exact keepNew_map hsame requests e.2.request

/-- They may be changed before or after all are gathered. -/
theorem gathered_rejudge (entries : List (Identity × VersionRequest)) :
    gathered (entries.map (rejudgeEntry q)) = (gathered entries).mapValues (rejudgeVersions q) := by
  unfold gathered
  -- over all maps gathered so far, as the fold begins from the empty one
  suffices h : ∀ m : Gathered, (entries.map (rejudgeEntry q)).foldl gather (m.mapValues (rejudgeVersions q)) =
      (entries.foldl gather m).mapValues (rejudgeVersions q) from h ∅
  induction entries with
  | nil => exact fun _ => rfl
  | cons e entries ih =>
    intro m
    rw [List.map_cons, List.foldl_cons, List.foldl_cons, gather_rejudge, ih]

/-- They may be changed before or after a group is made, since a group does not look at them. -/
theorem make_rejudge (v : Version) (q : Bool → Bool) (requests : List Request) :
    RequestGroup.make v (requests.map (·.rejudge q)) = (RequestGroup.make v requests).rejudge q := by
  unfold RequestGroup.make RequestGroup.rejudge
  -- requests are told apart by their requesters, and sorted by them
  have hfirst : RequestGroup.firstOfEachName (requests.map (·.rejudge q)) =
      (RequestGroup.firstOfEachName requests).map (·.rejudge q) :=
    firstsBy_map (fun _ _ => rfl) requests
  have hsort : ∀ rs : List Request, Sorting.sortBy Request.before (rs.map (·.rejudge q)) =
      (Sorting.sortBy Request.before rs).map (·.rejudge q) :=
    Sorting.sortBy_map fun _ _ => rfl
  rw [hfirst, hsort]

/-- They may be changed before or after the groups are made. -/
theorem groups_rejudge (n : Identity) (byVersion : OrderedMap Version (List Request)) :
    groups (rejudgeVersions q n byVersion) = (groups byVersion).map fun g => g.rejudge (q.verdict n g.expected) := by
  have hsort : ∀ gs : List RequestGroup,
      Sorting.sortBy RequestGroup.before (gs.map fun g => g.rejudge (q.verdict n g.expected)) =
        (Sorting.sortBy RequestGroup.before gs).map fun g => g.rejudge (q.verdict n g.expected) :=
    Sorting.sortBy_map fun _ _ => rfl
  unfold groups rejudgeVersions OrderedMap.mapValues
  rw [← hsort, List.map_map, List.map_map]
  congr 1
  refine List.map_congr_left fun e _ => ?_
  exact make_rejudge e.1 _ e.2

/-- Verdicts may be changed before or after a list of requests is gathered. -/
theorem ofList_rejudge (entries : List (Identity × VersionRequest)) :
    ofList (entries.map (rejudgeEntry q)) = (ofList entries).rejudge q := by
  -- artifacts are sorted by their keys, whatever is gathered for them
  have hsort : ∀ es : List (Identity × OrderedMap Version (List Request)),
      Sorting.sortBy (fun x y => x.1.before y.1) (es.map fun e => (e.1, rejudgeVersions q e.1 e.2)) =
        (Sorting.sortBy (fun x y => x.1.before y.1) es).map fun e => (e.1, rejudgeVersions q e.1 e.2) :=
    Sorting.sortBy_map fun _ _ => rfl
  have hgathered : (gathered (entries.map (rejudgeEntry q))).entries =
      (gathered entries).entries.map fun e => (e.1, rejudgeVersions q e.1 e.2) :=
    congrArg OrderedMap.entries (gathered_rejudge q entries)
  show (⟨(Sorting.sortBy _ (gathered (entries.map (rejudgeEntry q))).entries).map _⟩ : ResolutionMap) =
    ⟨((Sorting.sortBy _ (gathered entries).entries).map _).map _⟩
  rw [hgathered, hsort, List.map_map, List.map_map]
  congr 1
  refine List.map_congr_left fun e _ => ?_
  exact congrArg (Prod.mk e.1) (groups_rejudge q e.1 e.2)

end ResolutionMap

end VersionAudit
