import VersionAudit.Proofs.Firsts
import VersionAudit.Proofs.Identity
import VersionAudit.Proofs.OrderedMap
import VersionAudit.Proofs.Sorting.Content
import VersionAudit.Proofs.Version.Equality
import VersionAudit.Resolution

/-!
# Gathering requests

What `ResolutionMap.ofList` makes of a list of requests. The requests for one version of one artifact are picked
out of the list by `requestsFor`; a group holds the first of each name among them (`group_of_mem`), and every
request of the list has a group (`exists_group`).
-/

namespace VersionAudit

namespace Request

theorem beq_self (r : Request) : (r == r) = true := by
  show (r.requester == r.requester && r.managed == r.managed && r.direct == r.direct) = true
  simp

theorem name_eq_of_beq {r s : Request} (h : (r == s) = true) : r.name = s.name := by
  have hreq : (r.requester == s.requester && r.managed == s.managed && r.direct == s.direct) = true := h
  simp only [Bool.and_eq_true] at hreq
  exact Identity.minimalName_eq_of_beq hreq.1.1

end Request

namespace ResolutionMap

/-- The requests of a list for a version of an artifact, the first of each kind. -/
def requestsFor (entries : List (Identity × VersionRequest)) (n : Identity) (v : Version) : List Request :=
  firstsBy (· == ·) ((entries.filter fun e => e.1 == n && e.2.expected == v).map (·.2.request))

/-- The requests for a version come from the list. -/
theorem mem_requestsFor {entries : List (Identity × VersionRequest)} {n : Identity} {v : Version} {r : Request}
    (h : r ∈ requestsFor entries n v) :
    ∃ e ∈ entries, (e.1 == n) = true ∧ (e.2.expected == v) = true ∧ e.2.request = r := by
  rcases List.mem_map.1 (mem_of_mem_firstsBy h) with ⟨e, he, rfl⟩
  rw [List.mem_filter, Bool.and_eq_true] at he
  exact ⟨e, he.1, he.2.1, he.2.2, rfl⟩

/-- For each entry of the list there is a request by its requester. -/
theorem exists_mem_requestsFor {entries : List (Identity × VersionRequest)} {e : Identity × VersionRequest}
    {n : Identity} {v : Version} (he : e ∈ entries) (hn : (e.1 == n) = true) (hv : (e.2.expected == v) = true) :
    ∃ r ∈ requestsFor entries n v, r.name = e.2.request.name := by
  have hmem : e.2.request ∈ (entries.filter fun e => e.1 == n && e.2.expected == v).map (·.2.request) :=
    List.mem_map_of_mem (List.mem_filter.2 ⟨he, by simp [hn, hv]⟩)
  rcases exists_mem_firstsBy Request.beq_self hmem with ⟨r, hr, hsame⟩
  exact ⟨r, hr, Request.name_eq_of_beq hsame⟩

/-! ## The gathered requests -/

/-- The requests gathered for a version of an artifact. -/
def Gathered.lookup (m : Gathered) (n : Identity) (v : Version) : List Request :=
  (((m.find? n).getD ∅).find? v).getD []

/-- One more entry adds its request for its own artifact and version, if it is a new one. -/
theorem lookup_gather (m : Gathered) (e : Identity × VersionRequest) (n : Identity) (v : Version) :
    (gather m e).lookup n v =
      if e.1 == n && e.2.expected == v then addNew (m.lookup n v) e.2.request else m.lookup n v := by
  unfold Gathered.lookup gather
  rw [OrderedMap.find?_alter]
  by_cases hn : (e.1 == n) = true
  · simp only [hn, if_true, Option.getD_some, OrderedMap.find?_alter, Bool.true_and]
    by_cases hv : (e.2.expected == v) = true <;> simp [hv]
  · simp [hn]

/-- What a well-formed gathering looks like: keys differ, and no version stands without a request. -/
structure Gathered.Ordered (m : Gathered) : Prop where
  distinct : m.Distinct
  inner : ∀ n byVersion, m.find? n = some byVersion → byVersion.Distinct ∧ byVersion.entries ≠ [] ∧
    ∀ v requests, byVersion.find? v = some requests → requests ≠ []

/-- There is a request after one was added. -/
theorem addNew_ne_nil (requests : List Request) (r : Request) : addNew requests r ≠ [] := by
  unfold addNew
  split
  · rename_i h
    rintro rfl
    simp at h
  · simp

/-- One more entry keeps the gathering well formed. -/
theorem ordered_gather {m : Gathered} (hm : m.Ordered) (e : Identity × VersionRequest) : (gather m e).Ordered where
  distinct := OrderedMap.distinct_alter hm.distinct ..
  inner := by
    intro n byVersion h
    unfold gather at h
    rw [OrderedMap.find?_alter] at h
    split at h
    · obtain rfl := Option.some.inj h
      -- the versions gathered so far for the artifact, or none
      have hold : ((m.find? n).getD ∅).Distinct ∧
          ∀ v requests, ((m.find? n).getD ∅).find? v = some requests → requests ≠ [] := by
        cases hfind : m.find? n with
        | none => exact ⟨OrderedMap.distinct_empty, by simp⟩
        | some old => exact ⟨(hm.inner n old hfind).1, (hm.inner n old hfind).2.2⟩
      refine ⟨OrderedMap.distinct_alter hold.1 .., OrderedMap.entries_alter_ne_nil _ _ _ _, ?_⟩
      intro v requests hv
      rw [OrderedMap.find?_alter] at hv
      split at hv
      · obtain rfl := Option.some.inj hv
        exact addNew_ne_nil _ _
      · exact hold.2 v requests hv
    · exact hm.inner n byVersion h

/-- All requests of a list, gathered. -/
def gathered (entries : List (Identity × VersionRequest)) : Gathered :=
  entries.foldl gather ∅

/-- What is gathered from a list is well formed. -/
theorem ordered_gathered (entries : List (Identity × VersionRequest)) : (gathered entries).Ordered := by
  unfold gathered
  refine List.foldlRecOn _ _ ⟨OrderedMap.distinct_empty, by simp⟩ ?_
  intro m hm e _
  exact ordered_gather hm e

/-- The requests gathered for a version are those picked out of the list. -/
theorem lookup_gathered (entries : List (Identity × VersionRequest)) (n : Identity) (v : Version) :
    (gathered entries).lookup n v = requestsFor entries n v := by
  suffices h : ∀ m : Gathered, (entries.foldl gather m).lookup n v =
      ((entries.filter fun e => e.1 == n && e.2.expected == v).map (·.2.request)).foldl addNew (m.lookup n v) from
    h ∅
  induction entries with
  | nil => exact fun _ => rfl
  | cons e entries ih =>
    intro m
    rw [List.foldl_cons, ih, lookup_gather, List.filter_cons]
    split <;> rfl

/-! ## The groups -/

/-- The entries of the map are what was gathered, its versions grouped. -/
theorem mem_ofList_entries {entries : List (Identity × VersionRequest)} {n : Identity} {gs : List RequestGroup} :
    (n, gs) ∈ (ofList entries).entries ↔ ∃ byVersion, (n, byVersion) ∈ (gathered entries).entries ∧
      groups byVersion = gs := by
  unfold ofList
  simp only [List.mem_map, Sorting.mem_sortBy, Prod.mk.injEq]
  constructor
  · rintro ⟨⟨n', byVersion⟩, hmem, rfl, rfl⟩
    exact ⟨byVersion, hmem, rfl⟩
  · rintro ⟨byVersion, hmem, rfl⟩
    exact ⟨(n, byVersion), hmem, rfl, rfl⟩

/-- A group stands for one version with its requests. -/
theorem mem_groups {byVersion : OrderedMap Version (List Request)} {g : RequestGroup} :
    g ∈ groups byVersion ↔ ∃ v requests, (v, requests) ∈ byVersion.entries ∧ .make v requests = g := by
  unfold groups
  rw [Sorting.mem_sortBy, List.mem_map]
  constructor
  · rintro ⟨⟨v, requests⟩, hmem, rfl⟩
    exact ⟨v, requests, hmem, rfl⟩
  · rintro ⟨v, requests, hmem, rfl⟩
    exact ⟨(v, requests), hmem, rfl⟩

/-- Every group of an artifact holds the requests of the list for its version, and there are some. -/
theorem group_of_mem {entries : List (Identity × VersionRequest)} {n : Identity} {gs : List RequestGroup}
    {g : RequestGroup} (hgs : (n, gs) ∈ (ofList entries).entries) (hg : g ∈ gs) :
    requestsFor entries n g.expected ≠ [] ∧ g = .make g.expected (requestsFor entries n g.expected) := by
  have hordered := ordered_gathered entries
  rcases mem_ofList_entries.1 hgs with ⟨byVersion, hmem, rfl⟩
  rcases mem_groups.1 hg with ⟨v, requests, hv, rfl⟩
  have hfind := OrderedMap.find?_of_mem hordered.distinct hmem
  rcases hordered.inner n byVersion hfind with ⟨hdistinct, -, hnil⟩
  have hrequests := OrderedMap.find?_of_mem hdistinct hv
  -- the lookup goes through both maps, and finds the one entry that has the keys
  have hlookup : requests = requestsFor entries n v := by
    rw [← lookup_gathered]
    unfold Gathered.lookup
    simp [hfind, hrequests]
  show requestsFor entries n v ≠ [] ∧ RequestGroup.make v requests = .make v (requestsFor entries n v)
  rw [← hlookup]
  exact ⟨hnil v requests hrequests, rfl⟩

/-- No artifact is without a group. -/
theorem groups_ne_nil {entries : List (Identity × VersionRequest)} {n : Identity} {gs : List RequestGroup}
    (hgs : (n, gs) ∈ (ofList entries).entries) : gs ≠ [] := by
  have hordered := ordered_gathered entries
  rcases mem_ofList_entries.1 hgs with ⟨byVersion, hmem, rfl⟩
  rcases hordered.inner n byVersion (OrderedMap.find?_of_mem hordered.distinct hmem) with ⟨-, hnil, -⟩
  rcases List.exists_mem_of_ne_nil _ hnil with ⟨⟨v, requests⟩, he⟩
  exact List.ne_nil_of_mem (mem_groups.2 ⟨v, requests, he, rfl⟩)

/-- Every request of the list has a group of its artifact and version. -/
theorem exists_group {entries : List (Identity × VersionRequest)} {e : Identity × VersionRequest} (he : e ∈ entries) :
    ∃ n gs, (n, gs) ∈ (ofList entries).entries ∧ (n == e.1) = true ∧
      ∃ g ∈ gs, (g.expected == e.2.expected) = true := by
  have hnonempty : requestsFor entries e.1 e.2.expected ≠ [] := by
    rcases exists_mem_requestsFor he (BEq.rfl : (e.1 == e.1) = true) BEq.rfl with ⟨r, hr, -⟩
    exact List.ne_nil_of_mem hr
  -- a look-up that finds requests goes through an entry for the artifact and one for the version
  rw [← lookup_gathered] at hnonempty
  unfold Gathered.lookup at hnonempty
  cases hfind : (gathered entries).find? e.1 with
  | none => simp [hfind] at hnonempty
  | some byVersion =>
    cases hv : byVersion.find? e.2.expected with
    | none => simp [hfind, hv] at hnonempty
    | some requests =>
      rcases OrderedMap.exists_mem_of_find? hfind with ⟨n, hn, hsame⟩
      rcases OrderedMap.exists_mem_of_find? hv with ⟨v, hmem, hvsame⟩
      exact ⟨n, _, mem_ofList_entries.2 ⟨byVersion, hn, rfl⟩, hsame, _, mem_groups.2 ⟨v, requests, hmem, rfl⟩, hvsame⟩

end ResolutionMap

namespace RequestGroup

/-- The requests of a group are among those it is made of. -/
theorem mem_of_mem_make {v : Version} {requests : List Request} {r : Request} (h : r ∈ (make v requests).requests) :
    r ∈ requests :=
  mem_of_mem_firstsBy (Sorting.mem_sortBy.1 h)

/-- Every name among the requests is in the group made of them. -/
theorem exists_mem_make {v : Version} {requests : List Request} {r : Request} (h : r ∈ requests) :
    ∃ r' ∈ (make v requests).requests, r'.name = r.name := by
  obtain ⟨r', hr', hname⟩ : ∃ r' ∈ firstsBy (fun x y => x.name == y.name) requests, (r'.name == r.name) = true :=
    exists_mem_firstsBy (by simp) h
  exact ⟨r', Sorting.mem_sortBy.2 hr', by simpa using hname⟩

end RequestGroup

namespace ResolutionMap

/-- What stands in a group is a request of the list, for the group's artifact and version. -/
theorem exists_entry_of_mem {entries : List (Identity × VersionRequest)} {n : Identity} {gs : List RequestGroup}
    {g : RequestGroup} {r : Request} (hgs : (n, gs) ∈ (ofList entries).entries) (hg : g ∈ gs)
    (hr : r ∈ g.requests) :
    ∃ e ∈ entries, (e.1 == n) = true ∧ (e.2.expected == g.expected) = true ∧ e.2.request = r := by
  rcases group_of_mem hgs hg with ⟨-, hmake⟩
  rw [hmake] at hr
  exact mem_requestsFor (RequestGroup.mem_of_mem_make hr)

/-- A request of the list has one of its name in every group of its artifact and version. -/
theorem exists_mem_of_entry {entries : List (Identity × VersionRequest)} {n : Identity} {gs : List RequestGroup}
    {g : RequestGroup} {e : Identity × VersionRequest} (hgs : (n, gs) ∈ (ofList entries).entries) (hg : g ∈ gs)
    (he : e ∈ entries) (hn : (e.1 == n) = true) (hv : (e.2.expected == g.expected) = true) :
    ∃ r ∈ g.requests, r.name = e.2.request.name := by
  rcases group_of_mem hgs hg with ⟨-, hmake⟩
  rcases exists_mem_requestsFor he hn hv with ⟨r, hr, hname⟩
  rw [hmake]
  rcases RequestGroup.exists_mem_make (v := g.expected) hr with ⟨r', hr', hname'⟩
  exact ⟨r', hr', hname'.trans hname⟩

/-- Whether a request is for a version of an artifact, from a requester of a name. -/
def isRequest (n : Identity) (v : Version) (name : String) (e : Identity × VersionRequest) : Bool :=
  e.1 == n && e.2.expected == v && e.2.request.name == name

/-- A request stands in a group just if it is the first of its name in the list, among those for the group's artifact
and version. -/
theorem mem_requests_iff {entries : List (Identity × VersionRequest)} {n : Identity} {gs : List RequestGroup}
    {g : RequestGroup} (hgs : (n, gs) ∈ (ofList entries).entries) (hg : g ∈ gs) {r : Request} :
    r ∈ g.requests ↔ ∃ e, entries.find? (isRequest n g.expected r.name) = some e ∧ e.2.request = r := by
  rcases group_of_mem hgs hg with ⟨-, hmake⟩
  have hrequests : g.requests = Sorting.sortBy Request.before
      (firstsBy (fun x y => x.name == y.name) (requestsFor entries n g.expected)) :=
    congrArg RequestGroup.requests hmake
  have hsame : (fun e : Identity × VersionRequest => decide ((e.1 == n && e.2.expected == g.expected) = true ∧
      ((fun x : Request => x.name == r.name) ∘ fun e => e.2.request) e = true)) = isRequest n g.expected r.name := by
    funext e
    unfold isRequest
    rw [Bool.eq_iff_iff]
    simp
  rw [hrequests, Sorting.mem_sortBy, mem_firstsBy_iff]
  unfold requestsFor
  -- the first of a name among the firsts is the first of the name, since equal requests have one name
  rw [find?_firstsBy ?_, List.find?_map, List.find?_filter, hsame, Option.map_eq_some_iff]
  intro x y hxy
  rw [Request.name_eq_of_beq hxy]

/-- No group is without a request. -/
theorem requests_ne_nil {entries : List (Identity × VersionRequest)} {n : Identity} {gs : List RequestGroup}
    {g : RequestGroup} (hgs : (n, gs) ∈ (ofList entries).entries) (hg : g ∈ gs) : g.requests ≠ [] := by
  rcases group_of_mem hgs hg with ⟨hne, hmake⟩
  rcases List.exists_mem_of_ne_nil _ hne with ⟨r, hr⟩
  rcases RequestGroup.exists_mem_make (v := g.expected) hr with ⟨r', hr', -⟩
  rw [hmake]
  exact List.ne_nil_of_mem hr'

/-! ## Nothing stands twice -/

/-- No artifact stands in the map twice. -/
theorem distinct_ofList (entries : List (Identity × VersionRequest)) : (ofList entries).Distinct := by
  unfold OrderedMap.Distinct ofList
  rw [List.pairwise_map, (Sorting.sortBy_perm _ _).pairwise_iff]
  · exact (ordered_gathered entries).distinct
  · intro e f h
    rw [BEq.comm]
    exact h

/-- So the groups of an artifact hold all requests for it. -/
theorem exists_group_of_mem {entries : List (Identity × VersionRequest)} {n : Identity} {gs : List RequestGroup}
    (hgs : (n, gs) ∈ (ofList entries).entries) {e : Identity × VersionRequest} (he : e ∈ entries)
    (hn : (e.1 == n) = true) : ∃ g ∈ gs, (g.expected == e.2.expected) = true := by
  rcases exists_group he with ⟨n', gs', hgs', hn', g, hg, hv⟩
  have hfind := OrderedMap.find?_of_mem (distinct_ofList entries) hgs
  rw [← OrderedMap.find?_congr _ (BEq.trans hn' hn),
    OrderedMap.find?_of_mem (distinct_ofList entries) hgs', Option.some.injEq] at hfind
  exact ⟨g, hfind ▸ hg, hv⟩

/-- No version stands under an artifact twice. -/
theorem pairwise_groups {entries : List (Identity × VersionRequest)} {n : Identity} {gs : List RequestGroup}
    (hgs : (n, gs) ∈ (ofList entries).entries) : gs.Pairwise fun g h => (g.expected == h.expected) = false := by
  have hordered := ordered_gathered entries
  rcases mem_ofList_entries.1 hgs with ⟨byVersion, hmem, rfl⟩
  unfold groups
  rw [(Sorting.sortBy_perm _ _).pairwise_iff, List.pairwise_map]
  · exact (hordered.inner n byVersion (OrderedMap.find?_of_mem hordered.distinct hmem)).1
  · intro g h hgh
    rw [BEq.comm]
    exact hgh

/-- No requester stands in a group twice. -/
theorem pairwise_requests {entries : List (Identity × VersionRequest)} {n : Identity} {gs : List RequestGroup}
    {g : RequestGroup} (hgs : (n, gs) ∈ (ofList entries).entries) (hg : g ∈ gs) :
    g.requests.Pairwise fun r s => r.name ≠ s.name := by
  rcases group_of_mem hgs hg with ⟨-, hmake⟩
  rw [hmake]
  show (Sorting.sortBy Request.before (firstsBy (fun x y => x.name == y.name) _)).Pairwise _
  rw [(Sorting.sortBy_perm _ _).pairwise_iff]
  · refine (pairwise_firstsBy _ _).imp ?_
    intro r s hrs
    exact ne_of_beq_false hrs
  · intro r s hrs
    exact hrs.symm

end ResolutionMap

end VersionAudit
