import VersionAudit.Proofs.DepsDev.Trail

/-!
# Answers that can be read

1. `Transport.Sound`: the service gives no answers that cannot be read, and edges of its graphs lead to packages.
2. `exists_fetchGraph`: such a service can be asked for any graph. From then on the answer is kept.
3. `exists_chooseVersion`: a version is chosen, or none, and the graphs stay as they are.
-/

namespace VersionAudit.DepsDev

variable {σ : Type}

/-- Every successful answer can be read, and the edges of graphs lead to their packages. -/
structure Transport.Sound (t : Transport σ) : Prop where
  graphs : ∀ a timeout s body, (t.send ⟨graphAddress a, timeout⟩ s).1 = .answer 200 body →
    ∃ graph?, PackageGraph.read body = .ok graph? ∧ ∀ g, graph? = some g → g.Closed
  versions : ∀ group name timeout s body, (t.send ⟨packageAddress group name, timeout⟩ s).1 = .answer 200 body →
    body = .null ∨ ∃ listed, listedVersions body = .ok listed

/-- In the graphs that are kept edges lead to packages. -/
def Memory.Sound (m : Memory σ) : Prop :=
  ∀ a g, Given m.graphs a (some g) → g.Closed

/-- The body of a successful answer. -/
def Response.body? : Response → Option Json
  | .answer status body => if status = 200 then some body else none
  | .failed _ => none

/-- Only an answer of success has a body. -/
theorem Response.eq_of_body? {r : Response} {body : Json} (h : r.body? = some body) : r = .answer 200 body := by
  cases r with
  | answer status found =>
    by_cases hstatus : status = 200
    · have hbody : Response.body? (.answer status found) = some found := if_pos hstatus
      rw [hstatus, Option.some.inj (hbody.symm.trans h)]
    · have hnone : Response.body? (.answer status found) = none := if_neg hstatus
      rw [hnone] at h
      cases h
  | failed reason => cases h

/-- A question always comes to its end. -/
theorem exists_ask (t : Transport σ) (timeout : Int) (address subject : String) (l : Ledger σ) :
    ∃ l', (ask t timeout address subject).run l = (.ok (t.send ⟨address, timeout⟩ l.state).1.body?, l') := by
  unfold ask
  rw [Step.run_bind, Step.run_read]
  rcases hsend : t.send { address, timeout } l.state with ⟨response, s⟩
  cases response with
  | answer status body =>
    refine ⟨{ l with state := s }, ?_⟩
    simp only [hsend, Step.run_bind, Step.run_write]
    rfl
  | failed reason =>
    refine ⟨⟨s, l.notes ++ [⟨.error, .engine, "Error fetching " ++ subject ++ ": " ++ reason⟩]⟩, ?_⟩
    simp only [hsend, Step.run_bind, Step.run_write, Step.run_note]
    rfl

/-- A step on the transport leaves what is kept. -/
theorem exists_onTransport {α : Type} {step : Step σ α} {l : Ledger (Memory σ)} {x : Except Failure α} {k : Ledger σ}
    (h : step.run ⟨l.state.transport, l.notes⟩ = (x, k)) :
    (onTransport step).run l = (x, ⟨{ l.state with transport := k.state }, k.notes⟩) := by
  unfold onTransport
  rw [Step.run_within, h]

/-- What is kept already has the first say. -/
theorem Answers.kept?_store {κ α : Type} [BEq κ] [EquivBEq κ] (m : Answers κ α) (question other : κ)
    (answer : Option α) :
    (m.store question answer).kept? other = (m.kept? other).or (if question == other then some answer else none) :=
  OrderedMap.find?_insertNew m question other answer

/-- To a question that was new, what is stored is the answer from then on; all other answers stay. -/
theorem Answers.kept?_store_iff {κ α : Type} [BEq κ] [LawfulBEq κ] {m : Answers κ α} {question other : κ}
    {answer answer' : Option α} (hnew : m.kept? question = none) :
    (m.store question answer).kept? other = some answer' ↔
      m.kept? other = some answer' ∨ question = other ∧ answer = answer' := by
  rw [kept?_store]
  by_cases heq : question = other
  · subst heq
    simp [hnew]
  · simp [heq]

/-! ## Graphs -/

/-- The end of a query for a graph: what was found is kept, also that nothing was. -/
def keepGraph (a : Artifact) (answer : Option PackageGraph) : Step (Memory σ) (Option PackageGraph) := do
  if answer.isNone then
    Step.warn ("Unknown component " ++ a.path ++ ":" ++ a.version)
  let memory ← Step.read
  let graphs := memory.graphs.store (a.group, a.name, a.version) answer
  Step.write { memory with graphs }
  return (graphs.kept? (a.group, a.name, a.version)).getD answer

/-- An artifact with the same group, name and version has the graph of the other one. -/
theorem given_store_iff {graphs : Answers (String × String × String) PackageGraph} {a b : Artifact}
    {answer b? : Option PackageGraph} (hnew : graphs.kept? (a.group, a.name, a.version) = none) :
    Given (graphs.store (a.group, a.name, a.version) answer) b b? ↔
      Given graphs b b? ∨ (a.group, a.name, a.version) = (b.group, b.name, b.version) ∧ answer = b? :=
  Answers.kept?_store_iff hnew

/-- What was not known is kept. The warning comes before that, and changes the notes only. -/
theorem exists_run_keepGraph {l : Ledger (Memory σ)} {a : Artifact} (answer : Option PackageGraph)
    (hnew : l.state.graphs.kept? (a.group, a.name, a.version) = none) :
    ∃ notes, (keepGraph a answer).run l = (.ok answer,
      ⟨{ l.state with graphs := l.state.graphs.store (a.group, a.name, a.version) answer }, notes⟩) := by
  have hown : Given (l.state.graphs.store (a.group, a.name, a.version) answer) a answer :=
    (given_store_iff hnew).2 (.inr ⟨rfl, rfl⟩)
  unfold Given at hown
  unfold keepGraph
  cases answer with
  | none =>
    refine ⟨l.notes ++ [⟨.warning, .engine, "Unknown component " ++ a.path ++ ":" ++ a.version⟩], ?_⟩
    simp only [Option.isNone_none, if_true, Step.run_bind, Step.run_warn, Step.run_read, Step.run_write,
      Step.run_pure, hown, Option.getD_some]
  | some g =>
    refine ⟨l.notes, ?_⟩
    simp only [Option.isNone_some, Bool.false_eq_true, if_false, Step.run_bind, Step.run_read, Step.run_write,
      Step.run_pure, hown, Option.getD_some]

/-- What was not known is kept, and all else stays. -/
theorem exists_keepGraph {l : Ledger (Memory σ)} (hl : l.state.Sound) {a : Artifact} {answer : Option PackageGraph}
    (hnew : l.state.graphs.kept? (a.group, a.name, a.version) = none) (hanswer : ∀ g, answer = some g → g.Closed) :
    ∃ l', (keepGraph a answer).run l = (.ok answer, l') ∧ Given l'.state.graphs a answer ∧ l'.state.Sound ∧
      ∀ b b?, Given l.state.graphs b b? → Given l'.state.graphs b b? := by
  obtain ⟨notes, hrun⟩ := exists_run_keepGraph answer hnew
  refine ⟨_, hrun, (given_store_iff hnew).2 (.inr ⟨rfl, rfl⟩), ?_, ?_⟩
  · intro b g hb
    rcases (given_store_iff hnew).1 hb with hold | ⟨-, hsame⟩
    · exact hl b g hold
    · exact hanswer g hsame
  · intro b b? hb
    exact (given_store_iff hnew).2 (.inl hb)

/-- Graphs can be fetched, and what is fetched is kept. -/
theorem exists_fetchGraph {t : Transport σ} (ht : t.Sound) (timeout : Int) {l : Ledger (Memory σ)}
    (hl : l.state.Sound) (a : Artifact) :
    ∃ graph? l', (fetchGraph t timeout a).run l = (.ok graph?, l') ∧ Given l'.state.graphs a graph? ∧
      l'.state.Sound ∧ ∀ b b?, Given l.state.graphs b b? → Given l'.state.graphs b b? := by
  unfold fetchGraph
  simp only [Step.run_bind, Step.run_read]
  -- an answer is kept, or the service is asked and what it answers is kept
  cases hkept : l.state.graphs.kept? (a.group, a.name, a.version) with
  | some graph? => exact ⟨graph?, l, rfl, hkept, hl, fun _ _ => id⟩
  | none =>
    rcases exists_ask t timeout (graphAddress a) ("dependency graph for " ++ a.path ++ ":" ++ a.version)
      ⟨l.state.transport, l.notes⟩ with ⟨k, hask⟩
    have hasked : (onTransport (graphAnswer? t timeout a)).run l = _ := exists_onTransport hask
    simp only [Step.run_bind, hasked]
    cases hbody : (t.send ⟨graphAddress a, timeout⟩ l.state.transport).1.body? with
    | none =>
      have hnothing : ∀ g : PackageGraph, none = some g → g.Closed := by
        intro g hg
        cases hg
      rcases exists_keepGraph (l := ⟨{ l.state with transport := k.state }, k.notes⟩) hl hkept hnothing with
        ⟨l', hrun, hkeep⟩
      exact ⟨none, l', hrun, hkeep⟩
    | some body =>
      rcases ht.graphs a timeout _ body (Response.eq_of_body? hbody) with ⟨graph?, hread, hclosed⟩
      rcases exists_keepGraph (l := ⟨{ l.state with transport := k.state }, k.notes⟩) hl hkept hclosed with
        ⟨l', hrun, hkeep⟩
      refine ⟨graph?, l', ?_, hkeep⟩
      show (Step.ofExcept ((PackageGraph.read body).mapError .malformedAnswer) >>= keepGraph a).run _ = _
      rw [hread, Step.run_bind, Step.run_ofExcept]
      exact hrun

/-! ## Versions -/

/-- The versions of a package can be fetched. -/
theorem exists_fetchVersions {t : Transport σ} (ht : t.Sound) (timeout : Int) (l : Ledger (Memory σ))
    (group name : String) :
    ∃ listed l', (fetchVersions t timeout group name).run l = (.ok listed, l') ∧ l'.state.graphs = l.state.graphs := by
  unfold fetchVersions
  simp only [Step.run_bind, Step.run_read]
  cases hkept : l.state.versions.kept? (group, name) with
  | some listed? => exact ⟨listed?.getD [], l, rfl, rfl⟩
  | none =>
    rcases exists_ask t timeout (packageAddress group name) ("versions for " ++ group ++ ":" ++ name)
      ⟨l.state.transport, l.notes⟩ with ⟨k, hask⟩
    obtain ⟨listed?, hlisted⟩ : ∃ listed?, (versionsAnswer? t timeout group name).run ⟨l.state.transport, l.notes⟩ =
        (.ok listed?, k) := by
      unfold versionsAnswer?
      rw [Step.run_bind, hask]
      cases hbody : (t.send ⟨packageAddress group name, timeout⟩ l.state.transport).1.body? with
      | none => exact ⟨none, rfl⟩
      | some body =>
        rcases ht.versions group name timeout _ body (Response.eq_of_body? hbody) with rfl | ⟨listed, hlisted⟩
        · exact ⟨none, rfl⟩
        · refine ⟨some listed, ?_⟩
          -- a description that can be read is not null
          cases body with
          | null => cases hlisted
          | bool b => cases hlisted
          | number mantissa exponent => cases hlisted
          | string text => cases hlisted
          | array items => cases hlisted
          | object fields =>
            show (Step.ofExcept ((listedVersions (.object fields)).mapError .malformedAnswer) >>= _).run k = _
            rw [hlisted]
            rfl
    have hasked := exists_onTransport hlisted
    dsimp only
    rw [Step.run_bind, hasked]
    exact ⟨_, _, rfl, rfl⟩

/-- A version is chosen for a dependency, or none. -/
theorem exists_chooseVersion {t : Transport σ} (ht : t.Sound) (timeout : Int) (l : Ledger (Memory σ))
    (d : Dependency) :
    ∃ version? l', (chooseVersion t timeout d).run l = (.ok version?, l') ∧ l'.state.graphs = l.state.graphs := by
  unfold chooseVersion
  -- no version, one that is no range, or a range of the published ones
  by_cases hempty : d.artifact.version = ""
  · rw [if_pos hempty]
    exact ⟨none, l, rfl, rfl⟩
  rw [if_neg hempty]
  cases hrange : VersionRange.read d.artifact.version with
  | error fault => exact ⟨none, _, rfl, rfl⟩
  | ok range =>
    dsimp only
    by_cases hplain : (!range.isRange) = true
    · rw [if_pos hplain]
      exact ⟨_, l, rfl, rfl⟩
    rw [if_neg hplain]
    obtain ⟨vs, l', hversions, hgraphs⟩ : ∃ vs l', (versions t timeout d.artifact).run l = (.ok vs, l') ∧
        l'.state.graphs = l.state.graphs := by
      unfold versions
      rw [hrange]
      dsimp only
      cases range.recommended with
      | some version => exact ⟨_, l, rfl, rfl⟩
      | none =>
        rcases exists_fetchVersions ht timeout l d.artifact.group d.artifact.name with ⟨listed, l', hrun, hgraphs⟩
        refine ⟨range.select (listed.map Version.mk), l', ?_, hgraphs⟩
        dsimp only
        rw [Step.run_bind, hrun]
        rfl
    refine ⟨vs.getLast?.map (·.text), l', ?_, hgraphs⟩
    rw [Step.run_bind, hversions]
    rfl

end VersionAudit.DepsDev
