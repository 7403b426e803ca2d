import VersionAudit.Proofs.Analysis.TwoRuns
import VersionAudit.Proofs.DepsDev.ProjectGraph
import VersionAudit.Proofs.DepsDev.Service

/-!
# The order of the tasks

The tasks of a project share what the service has answered and the strategies looked up, so what one of them leaves
is there for the next. With a service that does not change its mind none of this shows: in whatever order the tasks
are run, and whatever earlier runs have left, the map or the failures are those of the tasks in their own order with
nothing remembered.

1. `Setting.resolutionMapIn`: the tasks in a given order, each with its end put at its own place.
2. `answersAlike_resolver`: the answers of the resolver show nothing of its memory.
3. `resolutionMapIn_eq`: the order does not matter.
-/

namespace VersionAudit

open Step (Related Alike)

/-! ## Values told with their places -/

/-- If there is a value for each element, none is left out. -/
theorem map_some_filterMap {α β : Type} {f : α → Option β} {xs : List α} (h : ∀ x ∈ xs, ∃ y, f x = some y) :
    (xs.filterMap f).map some = xs.map f := by
  induction xs with
  | nil => rfl
  | cons x xs ih =>
    obtain ⟨y, hy⟩ := h x (List.mem_cons_self ..)
    have hrest := ih fun x' hx' => h x' (List.mem_cons_of_mem _ hx')
    rw [List.filterMap_cons_some hy, List.map_cons, List.map_cons, hy, hrest]

/-- Values that are told with their places, each place once, are put just there. -/
theorem getElem?_places {α : Type} {es : List (Nat × α)} {n : Nat} (hplaces : (es.map (·.1)).Perm (List.range n))
    {i : Nat} {a : α} :
    ((List.range n).filterMap (⟨es⟩ : OrderedMap Nat α).find?)[i]? = some a ↔ (i, a) ∈ es := by
  have hdistinct : (⟨es⟩ : OrderedMap Nat α).Distinct := by
    have hnodup : (es.map (·.1)).Nodup := hplaces.nodup_iff.2 List.nodup_range
    exact (List.pairwise_map.1 hnodup).imp fun hef => beq_eq_false_iff_ne.2 hef
  have hfind : ∀ j b, (⟨es⟩ : OrderedMap Nat α).find? j = some b ↔ (j, b) ∈ es := by
    intro j b
    simp [OrderedMap.find?_eq_some_iff hdistinct]
  have hplace : ∀ j, j < n ↔ ∃ b, (j, b) ∈ es := by
    intro j
    rw [← List.mem_range, ← hplaces.mem_iff]
    simp
  have hsome : ∀ j ∈ List.range n, ∃ b, (⟨es⟩ : OrderedMap Nat α).find? j = some b := by
    intro j hj
    simpa only [hfind, ← hplace, List.mem_range] using hj
  -- no place is empty, so no value is moved
  have hmap := congrArg (·[i]?) (map_some_filterMap hsome)
  simp only [List.getElem?_map] at hmap
  constructor
  · intro ha
    rw [ha, Option.map_some, eq_comm, Option.map_eq_some_iff] at hmap
    obtain ⟨j, hj, hja⟩ := hmap
    obtain ⟨-, rfl⟩ : i < n ∧ i = j := by simpa [List.getElem?_eq_some_iff] using hj
    exact (hfind _ a).1 hja
  · intro ha
    have hi : i < n := (hplace i).2 ⟨a, ha⟩
    rw [List.getElem?_range hi, Option.map_some, (hfind i a).2 ha, Option.map_eq_some_iff] at hmap
    obtain ⟨_, hb, hba⟩ := hmap
    rw [hb, Option.some.inj hba]

/-- What was computed for the elements of a list, told with their places in any order, is found again place by
place. -/
theorem filterMap_find?_of_perm {α β : Type} {xs : List α} {order : List (α × Nat)} (horder : order.Perm xs.zipIdx)
    (g : α → β) :
    (List.range order.length).filterMap (⟨order.map fun e => (e.2, g e.1)⟩ : OrderedMap Nat β).find? = xs.map g := by
  have hplaces : ((order.map fun e => (e.2, g e.1)).map (·.1)).Perm (List.range order.length) := by
    rw [List.map_map, horder.length_eq, List.length_zipIdx, List.range_eq_range', ← List.zipIdx_map_snd]
    exact horder.map _
  refine List.ext_getElem? fun i => Option.ext fun b => ?_
  rw [getElem?_places hplaces]
  simp [horder.mem_iff, List.mem_zipIdx_iff_getElem?]

/-! ## The tasks in some order -/

namespace Setting

variable {σ : Type}

/-- The task of the dependency at a place among those that are scanned. -/
def attemptAt (s : Setting σ) (visible : Filter) (e : Option Dependency × Nat) : Step (Bench σ) (Nat × TaskEnd) := do
  return (e.2, ← s.attempt visible e.1)

/-- The resolution map of a project, with the tasks run in a given order. Whenever a task is run, its end is put at
its own place. -/
def resolutionMapIn (s : Setting σ) (visible : Filter) (order : List (Option Dependency × Nat)) :
    Step (Bench σ) ResolutionMap := do
  let ends ← order.mapM (s.attemptAt visible)
  Step.ofExcept (collect ((List.range order.length).filterMap (⟨ends⟩ : OrderedMap Nat TaskEnd).find?))

end Setting

/-! ## A resolver that shows nothing of its memory -/

namespace DepsDev

variable {σ : Type} {t : Transport σ} {timeout : Int}

/-- Two ledgers with memories that earlier runs can have left. -/
def BothLeft (t : Transport σ) (timeout : Int) (l k : Ledger (Memory σ)) : Prop :=
  l.state.Left t timeout ∧ k.state.Left t timeout

/-- What does not show in a faithful memory does not show in what earlier runs left. -/
theorem related_left (ht : t.Steady) {α : Type} {x : Step (Memory σ) α} (hx : Related (BothFaithful t timeout) x x Eq)
    (hleft : ∀ l : Ledger (Memory σ), l.state.Left t timeout → (x.run l).2.state.Left t timeout) :
    Related (BothLeft t timeout) x x Eq :=
  fun l k hlk =>
    ⟨⟨hleft l hlk.1, hleft k hlk.2⟩, (hx l k ⟨hlk.1.faithful ht, hlk.2.faithful ht⟩).2⟩

/-- The answers of the resolver show nothing of its memory. -/
theorem answersAlike_resolver (ht : t.Steady) :
    (resolver t timeout).AnswersAlike fun m m' => m.Left t timeout ∧ m'.Left t timeout where
  project p f := related_left ht (related_resolveProject ht p f) fun _ hl => hl.project p f
  node n f := related_left ht (related_resolveNode ht n) fun _ hl => hl.node n f
  versions a := related_left ht (related_versions ht a) fun _ hl => hl.versions a

/-- The resolver over a steady service repeats its answers, whatever it keeps by now. -/
theorem repeats_resolver (ht : t.Steady) : (resolver t timeout).Repeats (BothLeft t timeout) :=
  (answersAlike_resolver ht).repeats

theorem blind_resolver (ht : t.Steady) : (resolver t timeout).Blind (BothLeft t timeout) :=
  (repeats_resolver ht).toBlind

end DepsDev

/-! ## All orders -/

open DepsDev

section Orders

variable {σ : Type} {t : Transport σ} {timeout : Int} {s : Setting (Memory σ)} {fresh : Assignment}

/-- A bench that earlier runs can have left. -/
structure Bench.Left (t : Transport σ) (timeout : Int) (fresh : Assignment) (b : Bench (Memory σ)) : Prop where
  source : b.source.Left t timeout
  assignment : fresh.Left b.assignment

/-- Two benches that were left by the same kind of use are linked. -/
theorem Setting.linked_of_left (hfresh : fresh.Remembers fresh) {l k : Ledger (Bench (Memory σ))}
    (hl : l.state.Left t timeout fresh) (hk : k.state.Left t timeout fresh) :
    Linked (BothLeft t timeout) fresh l k :=
  ⟨⟨hl.source, hk.source⟩, hfresh, hl.assignment, hk.assignment⟩

/-- A task ends in the same way on all benches that earlier runs can have left, and leaves such a bench. -/
theorem Setting.run_attempt_of_left (ht : t.Steady) (hs : s.resolver = DepsDev.resolver t timeout) (hroot : s.root.Coherent)
    (hfresh : fresh.Remembers fresh) (visible : Filter) (d : Option Dependency) {l k : Ledger (Bench (Memory σ))}
    (hl : l.state.Left t timeout fresh) (hk : k.state.Left t timeout fresh) :
    ((s.attempt visible d).run l).1 = ((s.attempt visible d).run k).1 ∧
      ((s.attempt visible d).run l).2.state.Left t timeout fresh := by
  have hblind : s.resolver.Blind (BothLeft t timeout) := by
    rw [hs]
    exact blind_resolver ht
  obtain ⟨hlinked, halike⟩ := related_attempt_self hblind hroot visible d l k (linked_of_left hfresh hl hk)
  exact ⟨halike.eq, hlinked.source.1, hlinked.left⟩

/-- The tasks one after the other end as each of them would on its own, from the bench `k`. -/
theorem Setting.run_resolutionMap_of_left (ht : t.Steady) (hs : s.resolver = DepsDev.resolver t timeout)
    (hroot : s.root.Coherent) (hfresh : fresh.Remembers fresh) (visible : Filter)
    {l k : Ledger (Bench (Memory σ))} (hl : l.state.Left t timeout fresh) (hk : k.state.Left t timeout fresh) :
    ((s.resolutionMap visible).run l).1 = collect (s.scanned.map fun d => (d, ((s.task visible d).run k).1)) := by
  obtain ⟨l', hends, -⟩ := Step.run_mapM_of_constant (I := Bench.Left t timeout fresh)
    (g := fun d => (d, ((s.task visible d).run k).1))
    (fun d _ hm => run_attempt_of_left ht hs hroot hfresh visible d hm hk) s.scanned hl
  rw [resolutionMap_eq, Step.run_bind, hends]
  simp only [Step.run_ofExcept]

/-- So do the tasks in any order, and they leave a bench like that before them. -/
theorem Setting.run_resolutionMapIn_of_left (ht : t.Steady) (hs : s.resolver = DepsDev.resolver t timeout)
    (hroot : s.root.Coherent) (hfresh : fresh.Remembers fresh) (visible : Filter)
    {order : List (Option Dependency × Nat)} (horder : order.Perm s.scanned.zipIdx)
    {l k : Ledger (Bench (Memory σ))} (hl : l.state.Left t timeout fresh) (hk : k.state.Left t timeout fresh) :
    ((s.resolutionMapIn visible order).run l).1 =
        collect (s.scanned.map fun d => (d, ((s.task visible d).run k).1)) ∧
      ((s.resolutionMapIn visible order).run l).2.state.Left t timeout fresh := by
  -- each task ends as it would on the second bench
  have hat : ∀ (e : Option Dependency × Nat) (m : Ledger (Bench (Memory σ))), m.state.Left t timeout fresh →
      ((s.attemptAt visible e).run m).1 = .ok (e.2, (e.1, ((s.task visible e.1).run k).1)) ∧
        ((s.attemptAt visible e).run m).2.state.Left t timeout fresh := by
    intro e m hm
    obtain ⟨hend, hleft⟩ := run_attempt_of_left ht hs hroot hfresh visible e.1 hm hk
    rw [run_attempt, run_attempt] at hend
    unfold attemptAt
    rw [Step.run_bind, run_attempt]
    exact ⟨congrArg (Except.map (Prod.mk e.2)) hend, hleft⟩
  obtain ⟨l', hends, hl'⟩ := Step.run_mapM_of_constant (I := Bench.Left t timeout fresh)
    (g := fun e : Option Dependency × Nat => (e.2, (e.1, ((s.task visible e.1).run k).1))) hat order hl
  unfold resolutionMapIn
  rw [Step.run_bind, hends]
  simp only [Step.run_ofExcept]
  rw [filterMap_find?_of_perm horder fun d => (d, ((s.task visible d).run k).1)]
  exact ⟨rfl, hl'⟩

/-- The order of the tasks does not matter. For a service that does not change its mind, the tasks of a project, run
in any order on any bench that earlier runs can have left, give the same map or the same failure as the tasks in
their own order with nothing remembered. They leave a bench of the same sort. -/
theorem Setting.resolutionMapIn_eq (ht : t.Steady) (hs : s.resolver = DepsDev.resolver t timeout)
    {registry : Registry}
    (hmake : Assignment.make registry s.configuration.rules s.configuration.defaultStrategy = .ok fresh)
    {visible : Filter} {m m' : Ledger (Memory σ)}
    (hroot : (s.resolver.mapProject (policy s.configuration s.reactor) s.project visible).run m = (.ok s.root, m'))
    {order : List (Option Dependency × Nat)} (horder : order.Perm s.scanned.zipIdx) {b : Bench (Memory σ)}
    (hb : b.Left t timeout fresh) (notes notes' : List Note) (start : σ) :
    ((s.resolutionMapIn visible order).run ⟨b, notes⟩).1 =
        ((s.resolutionMap visible).run ⟨⟨{ transport := start }, fresh⟩, notes'⟩).1 ∧
      ((s.resolutionMapIn visible order).run ⟨b, notes⟩).2.state.Left t timeout fresh := by
  have hcoherent : s.root.Coherent := Resolver.coherent_of_run_mapProject hroot
  have hfresh := Assignment.remembers_make hmake
  have hempty : (⟨⟨{ transport := start }, fresh⟩, notes'⟩ : Ledger (Bench (Memory σ))).state.Left t timeout fresh :=
    ⟨.fresh start, .start⟩
  rw [run_resolutionMap_of_left ht hs hcoherent hfresh visible hempty hempty]
  exact run_resolutionMapIn_of_left ht hs hcoherent hfresh visible horder hb hempty

end Orders

/-! ## Two tasks in the other order -/

namespace DepsDev.Crossing

/-- The service with the number of queries it was asked. -/
def counting : Transport Nat :=
  ⟨fun q count => ((service.send q ()).1, count + 1)⟩

theorem steady_counting : counting.Steady :=
  fun _ _ _ => rfl

/-- What the tasks of the project share, and the filter that makes everything visible. -/
def setting (root : DependencyMap) : Setting (Memory Nat) :=
  { resolver := resolver counting 30, configuration := {}, project, reactor := [], root }

def everything : Filter :=
  .scopes Scope.all

/-- The map of the project's graph and the ledger that its resolution leaves. -/
def mapped : Except Failure DependencyMap × Ledger (Memory Nat) :=
  ((resolver counting 30).mapProject (Setting.policy {} []) project everything).run ⟨{ transport := 0 }, []⟩

/-- An assignment that gives every artifact the default strategy. -/
def assignment : Assignment :=
  { fallback := .default, rules := [] }

/-- The tasks in the other order, with the answers to the questions about the project remembered. -/
theorem resolutionMapIn_eq_crossing : ∃ root m map, mapped = (.ok root, m) ∧
    (((setting root).resolutionMapIn everything (setting root).scanned.zipIdx.reverse).run
      ⟨⟨(((resolver counting 30).project project everything).run ⟨{ transport := 0 }, []⟩).2.state, assignment⟩,
        []⟩).1 = .ok map ∧
    (((setting root).resolutionMap everything).run ⟨⟨{ transport := 0 }, assignment⟩, []⟩).1 = .ok map := by
  -- there is a map of the graph and one of the requests
  have hsome : (mapped.1.toOption.bind fun root =>
      (((setting root).resolutionMap everything).run ⟨⟨{ transport := 0 }, assignment⟩, []⟩).1.toOption).isSome =
        true := by
    decide +kernel
  rcases hroot : mapped with ⟨_ | root, m⟩
  · rw [hroot] at hsome
    cases hsome
  · rw [hroot] at hsome
    rcases hmap : (((setting root).resolutionMap everything).run ⟨⟨{ transport := 0 }, assignment⟩, []⟩).1 with
      _ | map
    · simp only [Except.toOption, Option.bind_some, hmap] at hsome
      cases hsome
    · refine ⟨root, m, map, rfl, ?_, hmap⟩
      have hmake : Assignment.make (.ofList []) [] (some "default") = .ok assignment := rfl
      unfold mapped at hroot
      rw [← hmap]
      exact (Setting.resolutionMapIn_eq (s := setting root) steady_counting rfl hmake hroot (List.reverse_perm _)
        ⟨.project project everything (.fresh 0), .start⟩ [] [] 0).1

end DepsDev.Crossing

end VersionAudit
