import VersionAudit.Proofs.DepsDev.Answers
import VersionAudit.Proofs.Step.Related

/-!
# A service that does not change its mind

1. `Transport.Steady`: the answer to a query does not depend on what was asked before.
2. `Memory.Faithful`: all that is kept is what the service would answer again, also that something is unknown. Every
   question keeps it so, and gets an answer that shows nothing of the memory (`Blind`).
3. `Memory.Left`: a memory that earlier runs can have left. It is faithful.
-/

namespace VersionAudit.DepsDev

open Step (Related Alike)

variable {σ : Type}

/-- The answer to a query does not depend on the state of the transport. -/
def Transport.Steady (t : Transport σ) : Prop :=
  ∀ query s s', (t.send query s).1 = (t.send query s').1

/-- The graph in a response, or that there is none. -/
def Response.graph? (r : Response) : Except Failure (Option PackageGraph) :=
  match r.body? with
  | none => .ok none
  | some body => (PackageGraph.read body).mapError .malformedAnswer

/-- The published versions in a response, or that there are none. -/
def Response.versions? (r : Response) : Except Failure (Option (List String)) :=
  match r.body? with
  | none => .ok none
  | some .null => .ok none
  | some description => ((listedVersions description).mapError .malformedAnswer).map some

/-- All that is kept is what the service answers, whatever was asked before. -/
structure Memory.Faithful (t : Transport σ) (timeout : Int) (m : Memory σ) : Prop where
  graphs : ∀ a graph?, Given m.graphs a graph? → ∀ s, (t.send ⟨graphAddress a, timeout⟩ s).1.graph? = .ok graph?
  versions : ∀ group name listed?, m.versions.kept? (group, name) = some listed? →
    ∀ s, (t.send ⟨packageAddress group name, timeout⟩ s).1.versions? = .ok listed?

section Questions

variable {t : Transport σ} {timeout : Int}

theorem faithful_fresh (s : σ) : ({ transport := s } : Memory σ).Faithful t timeout where
  graphs _ _ h := by cases h
  versions _ _ _ h := by cases h

/-! ## Questions -/

/-- The address of a graph depends on group, name and version only. -/
theorem graphAddress_congr {a b : Artifact} (h : (a.group, a.name, a.version) = (b.group, b.name, b.version)) :
    graphAddress a = graphAddress b := by
  obtain ⟨hgroup, hname, hversion⟩ : a.group = b.group ∧ a.name = b.name ∧ a.version = b.version := by
    simpa using h
  unfold graphAddress Artifact.path
  rw [hgroup, hname, hversion]

/-- A graph that is fetched is the one in the response of the service, wherever it comes from. -/
theorem run_fetchGraph (ht : t.Steady) {l : Ledger (Memory σ)} (hl : l.state.Faithful t timeout) (a : Artifact)
    (s : σ) :
    ((fetchGraph t timeout a).run l).1 = (t.send ⟨graphAddress a, timeout⟩ s).1.graph? ∧
      ((fetchGraph t timeout a).run l).2.state.Faithful t timeout := by
  unfold fetchGraph
  simp only [Step.run_bind, Step.run_read]
  cases hkept : l.state.graphs.kept? (a.group, a.name, a.version) with
  | some graph? => exact ⟨(hl.graphs a graph? hkept s).symm, hl⟩
  | none =>
    rcases exists_ask t timeout (graphAddress a) ("dependency graph for " ++ a.path ++ ":" ++ a.version)
      ⟨l.state.transport, l.notes⟩ with ⟨k, hask⟩
    have hasked : (onTransport (graphAnswer? t timeout a)).run l = _ := exists_onTransport hask
    simp only [Step.run_bind, hasked, ht _ _ s]
    -- what the service answers is kept if it can be read
    have hkeep : ∀ graph?, (t.send ⟨graphAddress a, timeout⟩ s).1.graph? = .ok graph? →
        ((keepGraph a graph?).run ⟨{ l.state with transport := k.state }, k.notes⟩).1 = .ok graph? ∧
          ((keepGraph a graph?).run ⟨{ l.state with transport := k.state }, k.notes⟩).2.state.Faithful t timeout := by
      intro graph? hgraph
      obtain ⟨notes, hrun⟩ :=
        exists_run_keepGraph (l := ⟨{ l.state with transport := k.state }, k.notes⟩) graph? hkept
      rw [hrun]
      refine ⟨rfl, ?_, hl.versions⟩
      intro b b? hb s'
      rcases (given_store_iff hkept).1 hb with hold | ⟨hkey, rfl⟩
      · exact hl.graphs b b? hold s'
      · rw [← graphAddress_congr hkey, ht _ s' s]
        exact hgraph
    unfold Response.graph? at hkeep ⊢
    cases hbody : (t.send ⟨graphAddress a, timeout⟩ s).1.body? with
    | none =>
      rw [hbody] at hkeep
      exact hkeep none rfl
    | some body =>
      rw [hbody] at hkeep
      show ((Step.ofExcept ((PackageGraph.read body).mapError .malformedAnswer) >>= keepGraph a).run _).1 = _ ∧
        ((Step.ofExcept ((PackageGraph.read body).mapError .malformedAnswer) >>= keepGraph a).run _).2.state.Faithful
          t timeout
      dsimp only at hkeep ⊢
      rw [Step.run_bind, Step.run_ofExcept]
      cases hread : (PackageGraph.read body).mapError Failure.malformedAnswer with
      | error failure => exact ⟨rfl, hl.graphs, hl.versions⟩
      | ok graph? => exact hkeep graph? hread

/-- The versions that are listed are those in the response, or none if it has none. -/
theorem run_fetchVersions (ht : t.Steady) {l : Ledger (Memory σ)} (hl : l.state.Faithful t timeout)
    (group name : String) (s : σ) :
    ((fetchVersions t timeout group name).run l).1 =
        ((t.send ⟨packageAddress group name, timeout⟩ s).1.versions?).map (·.getD []) ∧
      ((fetchVersions t timeout group name).run l).2.state.Faithful t timeout := by
  unfold fetchVersions
  simp only [Step.run_bind, Step.run_read]
  cases hkept : l.state.versions.kept? (group, name) with
  | some listed? =>
    refine ⟨?_, hl⟩
    rw [hl.versions group name listed? hkept s]
    rfl
  | none =>
    -- the question ends with what the response says
    obtain ⟨k, hasked⟩ : ∃ k : Ledger σ, (versionsAnswer? t timeout group name).run ⟨l.state.transport, l.notes⟩ =
        ((t.send ⟨packageAddress group name, timeout⟩ s).1.versions?, k) := by
      rcases exists_ask t timeout (packageAddress group name) ("versions for " ++ group ++ ":" ++ name)
        ⟨l.state.transport, l.notes⟩ with ⟨k, hask⟩
      refine ⟨k, ?_⟩
      unfold versionsAnswer? Response.versions?
      rw [Step.run_bind, hask, ht _ _ s]
      cases (t.send ⟨packageAddress group name, timeout⟩ s).1.body? with
      | none => rfl
      | some body =>
        have hlisted : ∀ d : Json,
            (Step.ofExcept ((listedVersions d).mapError .malformedAnswer) >>= fun listed => pure (some listed) :
              Step σ (Option (List String))).run k = (((listedVersions d).mapError .malformedAnswer).map some, k) := by
          intro d
          rw [Step.run_bind, Step.run_ofExcept]
          cases (listedVersions d).mapError Failure.malformedAnswer <;> rfl
        cases body with
        | null => rfl
        | _ => exact hlisted _
    have hrun := exists_onTransport hasked
    dsimp only
    rw [Step.run_bind, hrun]
    cases hlisted : (t.send ⟨packageAddress group name, timeout⟩ s).1.versions? with
    | error failure => exact ⟨rfl, hl.graphs, hl.versions⟩
    | ok listed? =>
      have hown : (l.state.versions.store (group, name) listed?).kept? (group, name) = some listed? :=
        (Answers.kept?_store_iff hkept).2 (.inr ⟨rfl, rfl⟩)
      simp only [Step.run_bind, Step.run_read, Step.run_write, Step.run_pure, hown]
      refine ⟨rfl, hl.graphs, ?_⟩
      intro group' name' listed?' h s'
      rcases (Answers.kept?_store_iff hkept).1 h with hold | ⟨hkey, rfl⟩
      · exact hl.versions group' name' listed?' hold s'
      · obtain ⟨rfl, rfl⟩ := Prod.mk.inj hkey
        rw [ht _ s' s]
        exact hlisted

/-! ## Answers that show nothing of the memory -/

/-- Two ledgers with faithful memories. -/
def BothFaithful (t : Transport σ) (timeout : Int) (l k : Ledger (Memory σ)) : Prop :=
  l.state.Faithful t timeout ∧ k.state.Faithful t timeout

theorem related_warn (text : String) : Related (BothFaithful t timeout) (Step.warn text) (Step.warn text) Eq :=
  fun _ _ hlk => ⟨hlk, .ok rfl⟩

/-- From two faithful memories the same graph is fetched, whether it is kept or asked for. -/
theorem related_fetchGraph (ht : t.Steady) (a : Artifact) :
    Related (BothFaithful t timeout) (fetchGraph t timeout a) (fetchGraph t timeout a) Eq := by
  rintro l k ⟨hl, hk⟩
  obtain ⟨hleft, hl'⟩ := run_fetchGraph ht hl a l.state.transport
  obtain ⟨hright, hk'⟩ := run_fetchGraph ht hk a l.state.transport
  rw [hleft, hright]
  exact ⟨⟨hl', hk'⟩, Step.alike_self _⟩

/-- The same versions are found published. -/
theorem related_fetchVersions (ht : t.Steady) (group name : String) :
    Related (BothFaithful t timeout) (fetchVersions t timeout group name) (fetchVersions t timeout group name) Eq := by
  rintro l k ⟨hl, hk⟩
  obtain ⟨hleft, hl'⟩ := run_fetchVersions ht hl group name l.state.transport
  obtain ⟨hright, hk'⟩ := run_fetchVersions ht hk group name l.state.transport
  rw [hleft, hright]
  exact ⟨⟨hl', hk'⟩, Step.alike_self _⟩

/-- So are the versions of an artifact. -/
theorem related_versions (ht : t.Steady) (a : Artifact) :
    Related (BothFaithful t timeout) (versions t timeout a) (versions t timeout a) Eq := by
  unfold versions
  split
  · exact .fail
  · split
    · exact .pure rfl
    · refine .bind (related_fetchVersions ht _ _) ?_
      rintro published _ rfl
      exact .pure rfl

/-- The same version is chosen. -/
theorem related_chooseVersion (ht : t.Steady) (d : Dependency) :
    Related (BothFaithful t timeout) (chooseVersion t timeout d) (chooseVersion t timeout d) Eq := by
  unfold chooseVersion
  split
  · exact .pure rfl
  · split
    · exact .bind (related_warn _) fun _ _ _ => .pure rfl
    · split
      · exact .pure rfl
      · refine .bind (related_versions ht _) ?_
        rintro vs _ rfl
        exact .pure rfl

/-- A node is resolved to the same graph. -/
theorem related_resolveNode (ht : t.Steady) (n : Node) :
    Related (BothFaithful t timeout) (resolveNode t timeout n) (resolveNode t timeout n) Eq := by
  unfold resolveNode
  refine .bind (related_fetchGraph ht _) ?_
  rintro graph? _ rfl
  split
  · exact .fail
  · split
    · exact .fail
    · refine .bind (.ofExcept (Step.alike_self _)) ?_
      rintro m _ rfl
      exact .pure rfl

/-- A declared dependency leads to the same draft. -/
theorem related_declare (ht : t.Steady) (p : Project) (f : Filter) (draft : Draft) (d : Dependency) :
    Related (BothFaithful t timeout) (declare t timeout p f draft d) (declare t timeout p f draft d) Eq := by
  unfold declare
  dsimp only
  split
  · exact .pure rfl
  · refine .bind (related_chooseVersion ht d) ?_
    -- the same version is chosen from both memories, so that both go the same way on
    rintro version? _ rfl
    split
    · exact .pure rfl
    · split
      · exact .pure rfl
      · refine .bind (related_fetchGraph ht _) ?_
        rintro graph? _ rfl
        split
        · exact .pure rfl
        · split
          · exact .pure rfl
          · exact .pure rfl

/-- A project is resolved to the same outcome. -/
theorem related_resolveProject (ht : t.Steady) (p : Project) (f : Filter) :
    Related (BothFaithful t timeout) (resolveProject t timeout p f) (resolveProject t timeout p f) Eq := by
  unfold resolveProject
  refine .bind (.foldlM (S := Eq) ?_ rfl) ?_
  · rintro d _ draft _ rfl
    exact related_declare ht p f draft d
  · rintro draft _ rfl
    refine .bind (.ofExcept (Step.alike_self _)) ?_
    rintro m _ rfl
    exact .pure rfl

/-! ## What earlier runs leave -/

/-- A memory that runs of the resolver can have left, one after the other, from an empty one. -/
inductive Memory.Left (t : Transport σ) (timeout : Int) : Memory σ → Prop
  | fresh (s : σ) : Left t timeout { transport := s }
  | project {l : Ledger (Memory σ)} (p : Project) (f : Filter) (h : Left t timeout l.state) :
    Left t timeout (((resolver t timeout).project p f).run l).2.state
  | node {l : Ledger (Memory σ)} (n : Node) (f : Filter) (h : Left t timeout l.state) :
    Left t timeout (((resolver t timeout).node n f).run l).2.state
  | versions {l : Ledger (Memory σ)} (a : Artifact) (h : Left t timeout l.state) :
    Left t timeout (((resolver t timeout).versions a).run l).2.state

/-- What a steady service's answers left behind is faithful to it. -/
theorem Memory.Left.faithful (ht : t.Steady) {m : Memory σ} (h : m.Left t timeout) : m.Faithful t timeout := by
  induction h with
  | fresh s => exact faithful_fresh s
  | project p f _ ih => exact (related_resolveProject ht p f _ _ ⟨ih, ih⟩).1.1
  | node n f _ ih => exact (related_resolveNode ht n _ _ ⟨ih, ih⟩).1.1
  | versions a _ ih => exact (related_versions ht a _ _ ⟨ih, ih⟩).1.1

end Questions

end VersionAudit.DepsDev
