import VersionAudit.Proofs.DepsDev.Keeping

/-!
# The graph of a project

With a service whose answers can be read nothing stops the declarations of a project, nor the merge after them.

1. `exists_declare`: a dependency can be declared.
2. `exists_nearestWins`: a project can be resolved, and in its graph the nearest package wins.
-/

namespace VersionAudit.DepsDev

open Merge

section Drafts

variable {σ : Type} {p : Project} {answers : Answers (String × String × String) PackageGraph} {trail : List Entry}
  {draft : Draft}

/-! ## Declaring -/

variable {t : Transport σ} (ht : t.Sound) (timeout : Int) (p) (f : Filter)

include ht

/-- A dependency can be declared. -/
theorem exists_run_declare {l : Ledger (Memory σ)} (hl : l.state.Sound) (draft : Draft) (d : Dependency) :
    ∃ draft' l', (declare t timeout p f draft d).run l = (.ok draft', l') ∧ l'.state.Sound := by
  unfold declare
  dsimp only
  split
  · exact ⟨draft, l, rfl, hl⟩
  -- a sound service answers, so that neither step fails
  rcases exists_chooseVersion ht timeout l d with ⟨version?, l₁, hchoose, hgraphs⟩
  have hl₁ : l₁.state.Sound := by
    unfold Memory.Sound
    rw [hgraphs]
    exact hl
  rw [Step.run_bind, hchoose]
  cases version? with
  | none => exact ⟨_, l₁, rfl, hl₁⟩
  | some version =>
    dsimp only
    split
    · exact ⟨draft, l₁, rfl, hl₁⟩
    rcases exists_fetchGraph ht timeout hl₁ (inVersion d version).artifact with ⟨graph?, l₂, hfetch, -, hl₂, -⟩
    unfold inVersion at hfetch
    rw [Step.run_bind, hfetch]
    cases graph? with
    | none => exact ⟨_, l₂, rfl, hl₂⟩
    | some graph =>
      dsimp only
      split
      · exact ⟨_, l₂, rfl, hl₂⟩
      · exact ⟨_, l₂, rfl, hl₂⟩

/-- Each declared dependency is left out, or becomes a child of the root. -/
theorem exists_declare {l : Ledger (Memory σ)} (hl : l.state.Sound) (h : Drafted p l.state.graphs trail draft)
    (d : Dependency) :
    ∃ trail' draft' l', (declare t timeout p f draft d).run l = (.ok draft', l') ∧ l'.state.Sound ∧
      Drafted p l'.state.graphs trail' draft' := by
  rcases exists_run_declare p ht timeout f hl draft d with ⟨draft', l', hrun, hl'⟩
  rcases drafted_of_run_declare ⟨trail, h⟩ hrun with ⟨trail', h'⟩
  exact ⟨trail', draft', l', hrun, hl', h'⟩

/-- Declaring dependencies one after the other. -/
theorem exists_declareAll (ds : List Dependency) {l : Ledger (Memory σ)} (hl : l.state.Sound)
    (h : Drafted p l.state.graphs trail draft) :
    ∃ trail' draft' l', (ds.foldlM (declare t timeout p f) draft).run l = (.ok draft', l') ∧ l'.state.Sound ∧
      Drafted p l'.state.graphs trail' draft' := by
  induction ds generalizing trail draft l with
  | nil => exact ⟨trail, draft, l, rfl, hl, h⟩
  | cons d ds ih =>
    rcases exists_declare p ht timeout f hl h d with ⟨trail₁, draft₁, l₁, hrun, hl₁, h₁⟩
    -- the draft and the memory that the first one leaves are as before
    rcases ih hl₁ h₁ with ⟨trail', draft', l', hrest, hl', h'⟩
    refine ⟨trail', draft', l', ?_, hl', h'⟩
    rw [List.foldlM_cons, Step.run_bind, hrun]
    exact hrest

/-- A project can be resolved: the merge comes to its end, and in the graph that it leaves the nearest package wins. -/
theorem exists_nearestWins {l : Ledger (Memory σ)} (hl : l.state.Sound) :
    ∃ o l', (resolveProject t timeout p f).run l = (.ok o, l') ∧
      (∃ draft m, (p.dependencies.foldlM (declare t timeout p f) (emptyDraft p)).run l = (.ok draft, l') ∧
        draft.merge.Exhausts m ∧ o.graph = ⟨m.nodes, 0⟩) ∧
      ∃ index, NearestWins p l'.state.graphs o.graph index := by
  rcases exists_declareAll p ht timeout f p.dependencies hl (drafted_empty p l.state.graphs) with
    ⟨trail, draft, l', hdeclare, hl', hdraft⟩
  have hstart : ∀ e ∈ trail, e.pending.isSome → e ∈ expectant trail := by
    intro e he hpending
    exact List.mem_filter.2 ⟨he, hpending⟩
  -- what is queued belongs to a graph that was fetched, and such graphs are closed
  have hclosed : ∀ r ∈ draft.merge.queue, r.graph.Closed := by
    intro r hr
    have hpending : some r ∈ (expectant trail).map Entry.pending := by
      rw [← hdraft.tracked.queue]
      exact List.mem_map_of_mem hr
    rcases List.mem_map.1 hpending with ⟨e, he, hr⟩
    obtain ⟨k, hk⟩ := List.mem_iff_getElem?.1 (List.mem_filter.1 he).1
    rcases hdraft.tracked.grounded.exists_branch hk with ⟨c, d, graph?, -, hgiven, -, hbranch⟩
    rcases hbranch r hr with ⟨rfl, -⟩
    exact hl' _ _ hgiven
  rcases exists_finish hdraft.tracked hstart hclosed with ⟨trail', m, hfinish, hexhausts, htracked, hsettled⟩
  refine ⟨{ graph := ⟨m.nodes, 0⟩, resolved := m.resolved, unresolved := draft.unresolved, cause := draft.cause }, l',
    ?_, ⟨draft, m, hdeclare, hexhausts, rfl⟩, indexOf trail', nearestWins_of_tracked htracked hsettled⟩
  unfold resolveProject
  show (p.dependencies.foldlM (declare t timeout p f) (emptyDraft p) >>= _ : Step (Memory σ) Outcome).run l = _
  rw [Step.run_bind, hdeclare]
  simp only [Step.run_bind, Step.run_ofExcept, hfinish]
  rfl

end Drafts

/-! ## Two crossing graphs -/

namespace Crossing

/-- A package as the service describes it. -/
def describe (name relation : String) : Json :=
  .object [("versionKey", .object [("name", .string ("g:" ++ name)), ("version", .string "1")]),
    ("relation", .string relation)]

def edge (source target : Int) : Json :=
  .object [("fromNode", .int source), ("toNode", .int target)]

/-- The graph of `d`: from `d` by `x` to `z`, and from there back to `d` and `x`. -/
def first : Json :=
  .object [("nodes", .array [describe "d" "SELF", describe "x" "DIRECT", describe "z" "INDIRECT"]),
    ("edges", .array [edge 0 1, edge 1 2, edge 2 0, edge 2 1])]

/-- The graph of `e`: from `e` to `z` and `y`, and from both to `x`. -/
def second : Json :=
  .object [("nodes", .array [describe "e" "SELF", describe "z" "DIRECT", describe "y" "DIRECT", describe "x" "INDIRECT"]),
    ("edges", .array [edge 0 1, edge 0 2, edge 1 3, edge 2 3])]

def requestFor (name : String) (exclusions : List Exclusion) : Dependency :=
  { artifact := { group := "g", name, version := "1" }, exclusions }

/-- A service that knows both graphs and no others. -/
def service : Transport Unit :=
  ⟨fun q s =>
    if q.address = graphAddress (requestFor "d" []).artifact then (.answer 200 first, s)
    else if q.address = graphAddress (requestFor "e" []).artifact then (.answer 200 second, s)
    else (.answer 404 .null, s)⟩

/-- The project declares `d`, and `e` without `y`. -/
def project : Project :=
  { group := "com.example", name := "app", version := "1"
    dependencies := [requestFor "d" [], requestFor "e" [⟨"g", "y"⟩]] }

/-- Nothing is known at the beginning. -/
def ledger : Ledger (Memory Unit) :=
  ⟨{ transport := () }, []⟩

/-- The service answers with one of its graphs. -/
theorem eq_of_answer {q : Query} {s : Unit} {body : Json} (h : (service.send q s).1 = .answer 200 body) :
    body = first ∨ body = second := by
  unfold service at h
  dsimp only at h
  split at h
  · exact .inl (Response.answer.inj h).2.symm
  · split at h
    · exact .inr (Response.answer.inj h).2.symm
    · cases (Response.answer.inj h).1

/-- The service has closed graphs and lists of versions only. -/
theorem sound_service : service.Sound where
  graphs := by
    intro a timeout s body h
    rcases eq_of_answer h with rfl | rfl
    · refine ⟨_, rfl, ?_⟩
      intro g hg
      obtain rfl := Option.some.inj hg
      decide +kernel
    · refine ⟨_, rfl, ?_⟩
      intro g hg
      obtain rfl := Option.some.inj hg
      decide +kernel
  versions := by
    intro group name timeout s body h
    rcases eq_of_answer h with rfl | rfl
    · exact .inr ⟨_, rfl⟩
    · exact .inr ⟨_, rfl⟩

theorem sound_ledger : ledger.state.Sound := by
  intro a g h
  cases h

/-- In the graph of the project `z` hangs below `e`, where it is nearer than below `d`, and `y` is left out. -/
theorem exists_nearestWins_crossing :
    ∃ o l', (resolveProject service 30 project (.scopes Scope.all)).run ledger = (.ok o, l') ∧
      (∃ draft m, (project.dependencies.foldlM (declare service 30 project (.scopes Scope.all))
        (emptyDraft project)).run ledger = (.ok draft, l') ∧ draft.merge.Exhausts m ∧ o.graph = ⟨m.nodes, 0⟩) ∧
      (∃ index, NearestWins project l'.state.graphs o.graph index) ∧
      o.graph.nodes.toList.map (fun n => (n.artifact.name, n.children)) =
        [("app", [1, 2]), ("d", [3]), ("e", [4]), ("x", []), ("z", [])] := by
  rcases exists_nearestWins project sound_service 30 (.scopes Scope.all) sound_ledger with ⟨o, l', hrun, hend, hwins⟩
  refine ⟨o, l', hrun, hend, hwins, ?_⟩
  -- the merge is run once, for the shape of the graph alone
  have hshape : ((resolveProject service 30 project (.scopes Scope.all)).run ledger).1.toOption.map
      (fun o => o.graph.nodes.toList.map fun n => (n.artifact.name, n.children)) =
        some [("app", [1, 2]), ("d", [3]), ("e", [4]), ("x", []), ("z", [])] := by
    decide +kernel
  rw [hrun] at hshape
  exact Option.some.inj hshape

end Crossing

end VersionAudit.DepsDev
