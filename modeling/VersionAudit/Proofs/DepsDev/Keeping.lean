import VersionAudit.Proofs.DepsDev.Callers
import VersionAudit.Proofs.DepsDev.NearestWins

/-!
# What a resolution that succeeds has kept

A project is resolved in two parts: its declared dependencies become the children of the root, and then the merge works
off what is pending for them. Nothing is asked of the service here: its answers may be unreadable or change, and edges
may lead nowhere. If a project is resolved all the same, the graphs that went into the result are kept, and the result
is what a trail says.

1. `Memory.KeptIn`: answers stay. `kept?_of_run_fetch`: an answer that was fetched is kept.
2. `Drafted`: a draft is what a trail of declared dependencies says. `drafted_of_run_declare`: a declaration adds at
   most one entry to the trail.
3. `tracked_of_run`: the merge goes on with the trail.
4. `exists_trail`: the trail of a project that was resolved.
-/

namespace VersionAudit.DepsDev

open Merge

variable {σ : Type} {t : Transport σ} {timeout : Int}

/-! ## Answers -/

/-- Whatever is kept in a memory is kept in the other one, too. -/
def Memory.KeptIn (m m' : Memory σ) : Prop :=
  ∀ q answer, m.kept? q = some answer → m'.kept? q = some answer

theorem Memory.KeptIn.given {m m' : Memory σ} (h : m.KeptIn m') {a : Artifact} {graph? : Option PackageGraph}
    (hgiven : Given m.graphs a graph?) : Given m'.graphs a graph? :=
  h (.graph a.group a.name a.version) graph? hgiven

section Fetching

variable {m : Memory σ}

/-- A query keeps all that is kept, and what it finds is stored only if nothing was. -/
theorem keeps_fetch (q : Question) : Step.Ensures m.KeptIn (fetch t timeout q) fun _ => True := by
  intro l hl
  refine ⟨?_, fun _ _ => trivial⟩
  have hlook : (look q).run l = (.ok (l.state.kept? q), l) := rfl
  unfold fetch
  rw [Step.run_bind, hlook]
  -- nothing is stored if an answer is kept, and nothing is replaced else
  cases hkept : l.state.kept? q with
  | some answer => exact hl
  | none =>
    dsimp only
    have hquery := kept?_query t timeout q
    rw [Step.run_bind]
    rcases hrun : (query t timeout q).run l with ⟨r, k⟩
    cases r with
    | error failure =>
      intro other answer hold
      have hsame := hquery other l
      rw [hrun] at hsame
      exact hsame.trans (hl other answer hold)
    | ok found =>
      dsimp only
      rw [run_settle]
      intro other answer hold
      have hne : other ≠ q := by
        rintro rfl
        rw [hl other answer hold] at hkept
        cases hkept
      have hsame := hquery other l
      rw [hrun] at hsame
      exact (Memory.kept?_store_of_ne k.state hne found).trans (hsame.trans (hl other answer hold))

/-- The answer that a fetch gives is kept then. -/
theorem kept?_of_run_fetch {q : Question} {answer : Option q.Found} {l l' : Ledger (Memory σ)}
    (h : (fetch t timeout q).run l = (.ok answer, l')) : l'.state.kept? q = some answer := by
  have hlook : (look q).run l = (.ok (l.state.kept? q), l) := rfl
  unfold fetch at h
  rw [Step.run_bind, hlook] at h
  cases hkept : l.state.kept? q with
  | some kept =>
    rw [hkept] at h
    cases h
    exact hkept
  | none =>
    rw [hkept] at h
    obtain ⟨found, k, -, hsettle⟩ := Step.run_bind_ok_iff.1 h
    rw [run_settle] at hsettle
    cases hsettle
    exact Memory.kept?_store_self k.state q found

theorem keeps_fetchGraph (a : Artifact) : Step.Ensures m.KeptIn (fetchGraph t timeout a) fun _ => True := by
  rw [fetchGraph_eq_fetch]
  exact keeps_fetch _

/-- Listing versions keeps all answers. -/
theorem keeps_versions (a : Artifact) : Step.Ensures m.KeptIn (versions t timeout a) fun _ => True := by
  unfold versions
  split
  · exact .fail
  · split
    · exact .pure trivial
    · refine .bind (Q := fun _ => True) ?_ fun published _ => .pure trivial
      rw [fetchVersions_eq_fetch, map_eq_pure_bind]
      exact .bind (keeps_fetch _) fun answer _ => .pure trivial

/-- Choosing a version keeps all answers. -/
theorem keeps_chooseVersion (d : Dependency) : Step.Ensures m.KeptIn (chooseVersion t timeout d) fun _ => True := by
  unfold chooseVersion
  split
  · exact .pure trivial
  · split
    · exact .bind .warn fun _ _ => .pure trivial
    · split
      · exact .pure trivial
      · exact .bind (keeps_versions _) fun vs _ => .pure trivial

/-- What a step ensures of a memory in which everything is kept, it does for each single answer. -/
theorem keptIn_of_run {α : Type} {step : Step (Memory σ) α} {l l' : Ledger (Memory σ)} {x : Except Failure α}
    (h : Step.Ensures l.state.KeptIn step fun _ => True) (hrun : step.run l = (x, l')) : l.state.KeptIn l'.state := by
  have hkept := (h l fun _ _ => id).1
  rw [hrun] at hkept
  exact hkept

end Fetching

/-! ## Drafts -/

section Drafts

variable {p : Project} {answers : Answers (String × String × String) PackageGraph} {trail : List Entry} {draft : Draft}

/-- The entries with something pending. -/
def expectant (trail : List Entry) : List Entry :=
  trail.filter fun e => e.pending.isSome

/-- A draft is what a trail of declared dependencies says, and all of them that can be looked at wait. -/
structure Drafted (p : Project) (answers : Answers (String × String × String) PackageGraph) (trail : List Entry)
    (draft : Draft) : Prop where
  tracked : Tracked p answers trail (expectant trail) draft.merge
  flat : ∀ e ∈ trail, e.depth = 1

/-- Before anything is declared the trail is empty. -/
theorem drafted_empty (p : Project) (answers : Answers (String × String × String) PackageGraph) :
    Drafted p answers [] (emptyDraft p) where
  tracked := by
    refine ⟨?_, rfl, ?_, .nil, ?_, rfl, ?_, .nil, ?_⟩
    · intro k e he
      cases he
    · intro key
      simp [emptyDraft]
    all_goals
      intro e he
      cases he
  flat := by
    intro e he
    cases he

/-- A draft says the same when more answers are known. -/
theorem Drafted.mono {answers' : Answers (String × String × String) PackageGraph}
    (h : Drafted p answers trail draft) (hanswers : ∀ a graph?, Given answers a graph? → Given answers' a graph?) :
    Drafted p answers' trail draft := by
  refine ⟨{ h.tracked with grounded := ?_ }, h.flat⟩
  intro k e he
  exact (h.tracked.grounded k e he).mono List.prefix_rfl hanswers

/-- A declared dependency is the last entry of the trail. -/
theorem Drafted.concat {d : Dependency} {graph? : Option PackageGraph} {draft' : Draft}
    (h : Drafted p answers trail draft) (hgiven : Given answers d.artifact graph?)
    (hnodes : draft'.merge.nodes = grow draft.merge.nodes 0 (declaredNode d))
    (hseen : draft'.merge.seen = (d.artifact.group, d.artifact.name) :: draft.merge.seen)
    (hqueue : draft'.merge.queue = draft.merge.queue ++ (startAt p draft.merge.nodes.size d graph?).toList) :
    Drafted p answers (trail ++ [declaredEntry p trail.length d graph?]) draft' := by
  have hflat : ∀ e ∈ trail ++ [declaredEntry p trail.length d graph?], e.depth = 1 := by
    intro e he
    rcases List.mem_append.1 he with he | he
    · exact h.flat e he
    · obtain rfl := List.mem_singleton.1 he
      rfl
  have hsubset : ∀ w ∈ expectant (trail ++ [declaredEntry p trail.length d graph?]),
      w ∈ trail ++ [declaredEntry p trail.length d graph?] := fun w hw => (List.mem_filter.1 hw).1
  refine ⟨?_, hflat⟩
  constructor
  case grounded =>
    exact h.tracked.grounded.concat (.declared d graph? hgiven)
  case nodes =>
    rw [hnodes, h.tracked.nodes, List.map_append, List.map_singleton, plant_concat]
    rfl
  case seen =>
    rw [hseen]
    exact mem_seen_concat h.tracked.seen (declaredEntry p trail.length d graph?)
  case once =>
    -- declared dependencies may be of the same package
    rw [List.pairwise_iff_forall_sublist]
    intro e f hsub hdeep
    have he := hflat e (hsub.subset (by simp))
    have hf := hflat f (hsub.subset (by simp))
    omega
  case apart =>
    intro e he hdeep
    have hone := hflat e he
    omega
  case queue =>
    have hplace : draft.merge.nodes.size = trail.length + 1 := h.tracked.size
    rw [hqueue, List.map_append, h.tracked.queue, hplace]
    unfold expectant
    rw [List.filter_append, List.map_append]
    congr 1
    show (startAt p (trail.length + 1) d graph?).toList.map some = _
    cases hstart : startAt p (trail.length + 1) d graph? with
    | none => simp [declaredEntry, hstart]
    | some r => simp [declaredEntry, hstart]
  case subset =>
    exact hsubset
  case sorted =>
    rw [List.pairwise_iff_forall_sublist]
    intro v w hsub
    have hv := hflat v (hsubset v (hsub.subset (by simp)))
    have hw := hflat w (hsubset w (hsub.subset (by simp)))
    omega
  case near =>
    intro w hw e he
    have hone := hflat e he
    omega

end Drafts

section Trails

variable {p : Project} {f : Filter}

/-! ## Declaring -/

/-- A draft goes on being what a trail of declared dependencies says. -/
theorem drafted_of_run_declare {draft draft' : Draft} {d : Dependency} {l l' : Ledger (Memory σ)}
    (h : ∃ trail, Drafted p l.state.graphs trail draft)
    (hrun : (declare t timeout p f draft d).run l = (.ok draft', l')) :
    ∃ trail, Drafted p l'.state.graphs trail draft' := by
  obtain ⟨trail, h⟩ := h
  unfold declare at hrun
  dsimp only at hrun
  split at hrun
  · cases hrun
    exact ⟨trail, h⟩
  -- a version is chosen, its graph is fetched, and an entry is added for it
  obtain ⟨version?, l₁, hchoose, hrest⟩ := Step.run_bind_ok_iff.1 hrun
  have h₁ : Drafted p l₁.state.graphs trail draft :=
    h.mono fun a graph? => (keptIn_of_run (keeps_chooseVersion d) hchoose).given
  cases version? with
  | none =>
    cases hrest
    exact ⟨trail, h₁.tracked, h₁.flat⟩
  | some version =>
    dsimp only at hrest
    split at hrest
    · cases hrest
      exact ⟨trail, h₁⟩
    obtain ⟨graph?, l₂, hfetch, hend⟩ := Step.run_bind_ok_iff.1 hrest
    have h₂ : Drafted p l₂.state.graphs trail draft :=
      h₁.mono fun a graph? => (keptIn_of_run (keeps_fetchGraph _) hfetch).given
    have hgiven : Given l₂.state.graphs (inVersion d version).artifact graph? := by
      rw [fetchGraph_eq_fetch] at hfetch
      exact kept?_of_run_fetch hfetch
    cases graph? with
    | none =>
      cases hend
      exact ⟨_, h₂.concat hgiven rfl rfl (List.append_nil _).symm⟩
    | some graph =>
      dsimp only at hend
      cases hself : graph.self with
      | none =>
        rw [hself] at hend
        cases hend
        refine ⟨_, h₂.concat hgiven rfl rfl ?_⟩
        unfold startAt
        rw [Option.bind_some, hself]
        exact (List.append_nil _).symm
      | some self =>
        rw [hself] at hend
        cases hend
        refine ⟨_, h₂.concat hgiven rfl rfl ?_⟩
        unfold startAt
        rw [Option.bind_some, hself]
        rfl

/-! ## Merging -/

/-- A node whose edges were all looked at has edges to packages only. -/
theorem exists_package_of_expand {m m' : Merge} {r : Pending} (h : m.expand r = .ok m') :
    ∀ j ∈ r.graph.targets r.place, ∃ q, r.graph.package? j = some q := by
  unfold expand at h
  generalize r.graph.targets r.place = targets at h
  -- edge by edge, since the first one that dangles ends the merge
  induction targets generalizing m with
  | nil =>
    intro j hj
    cases hj
  | cons i targets ih =>
    rw [List.foldlM_cons] at h
    obtain ⟨m₁, htake, hrest⟩ := Except.bind_ok_iff.1 h
    refine List.forall_mem_cons.2 ⟨?_, ih hrest⟩
    cases hpackage : r.graph.package? i with
    | some q => exact ⟨q, rfl⟩
    | none =>
      unfold take at htake
      rw [hpackage] at htake
      cases htake

/-- What a run leaves is what a longer trail says. -/
theorem tracked_of_run {answers : Answers (String × String × String) PackageGraph} {fuel : Nat} {m m' : Merge}
    (h : ∃ trail waiting, Tracked p answers trail waiting m) (hrun : run fuel m = .ok m') :
    ∃ trail waiting, Tracked p answers trail waiting m' := by
  obtain ⟨trail, waiting, h⟩ := h
  -- each turn takes the first entry that waits and makes the trail longer
  induction fuel generalizing trail waiting m with
  | zero =>
    obtain rfl := Except.ok.inj hrun
    exact ⟨trail, waiting, h⟩
  | succ fuel ih =>
    unfold run at hrun
    cases waiting with
    | nil =>
      have hqueue : m.queue = [] := by simpa using h.queue
      rw [hqueue] at hrun
      obtain rfl := Except.ok.inj hrun
      exact ⟨trail, [], h⟩
    | cons w waiting =>
      obtain ⟨r, rest, k, hqueue, hpending, hk, hpopped, hnear, hfar⟩ := h.pop
      rw [hqueue] at hrun
      obtain ⟨m₁, hexpand, hrest⟩ := Except.bind_ok_iff.1 hrun
      rcases tracked_expand hpopped hk hpending hnear hfar (exists_package_of_expand hexpand)
        (List.nil_append _).symm (by simp) with ⟨new, m₂, hexpand₂, h₂, -⟩
      obtain rfl : m₁ = m₂ := Except.ok.inj (hexpand.symm.trans hexpand₂)
      exact ih hrest _ _ h₂

/-- The graph of a project that was resolved is the tree of a trail. -/
theorem exists_trail {o : Outcome} {l l' : Ledger (Memory σ)}
    (h : (resolveProject t timeout p f).run l = (.ok o, l')) :
    ∃ trail, AllGrounded p l'.state.graphs trail ∧ o.graph = treeOf p trail := by
  unfold resolveProject at h
  obtain ⟨draft, k, hdeclare, hrest⟩ := Step.run_bind_ok_iff.1 h
  obtain ⟨m, k', hfinish, hend⟩ := Step.run_bind_ok_iff.1 hrest
  rw [Step.run_ofExcept] at hfinish
  obtain ⟨hrun, rfl⟩ := Prod.mk.inj hfinish
  cases hend
  obtain ⟨trail, hdrafted⟩ : ∃ trail, Drafted p l'.state.graphs trail draft :=
    Step.run_foldlM_ok (R := fun draft l => ∃ trail, Drafted p l.state.graphs trail draft)
      (fun d _ draft l draft' l' h => drafted_of_run_declare h) ⟨[], drafted_empty p l.state.graphs⟩ hdeclare
  obtain ⟨trail', waiting, htracked⟩ := tracked_of_run ⟨trail, _, hdrafted.tracked⟩ hrun
  refine ⟨trail', htracked.grounded, ?_⟩
  rw [htracked.nodes]
  rfl

end Trails

end VersionAudit.DepsDev
