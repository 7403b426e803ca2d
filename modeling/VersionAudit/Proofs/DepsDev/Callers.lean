import Mathlib.Logic.Function.Basic
import VersionAudit.Proofs.DepsDev.Answers

/-!
# Callers that ask at the same time

Memory is locked for the look into it and again for the storing of an answer, but not for the query between them. So
several callers may ask the service the same question at once, and be told different things.

1. `Question`, `fetch`: both kinds of questions as one. A fetch is a look, and if nothing is kept, a query that is
   settled.
2. `System`, `Turn`: any number of callers, each at some stage of its fetch, and a service that changes at any time.
3. What one turn does to the stages and to the answers kept, and what a run of turns does. Whatever calls have returned
   is kept (`Settled`).
4. `run_uninterrupted`: a call whose turns are not interrupted is a fetch.
5. `fetches_agree`: what any turns of any calls lead to.
-/

namespace VersionAudit.DepsDev

variable {σ ι : Type}

/-! ## Questions -/

/-- What the service can be asked. -/
inductive Question
  | graph (group name version : String)
  | versions (group name : String)
deriving DecidableEq

/-- What the service may have for a question. -/
abbrev Question.Found : Question → Type
  | .graph .. => PackageGraph
  | .versions .. => List String

namespace Memory

/-- The answer kept for a question. -/
def kept? (m : Memory σ) : (q : Question) → Option (Option q.Found)
  | .graph group name version => m.graphs.kept? (group, name, version)
  | .versions group name => m.versions.kept? (group, name)

/-- Keeps an answer unless there is one already. -/
def store (m : Memory σ) : (q : Question) → Option q.Found → Memory σ
  | .graph group name version, answer => { m with graphs := m.graphs.store (group, name, version) answer }
  | .versions group name, answer => { m with versions := m.versions.store (group, name) answer }

/-- After an answer is stored the first one stored for the question is kept. -/
theorem kept?_store_self (m : Memory σ) (q : Question) (answer : Option q.Found) :
    (m.store q answer).kept? q = some ((m.kept? q).getD answer) := by
  have hfirst : ∀ kept? : Option (Option q.Found), kept?.or (some answer) = some (kept?.getD answer) := by
    intro kept?
    cases kept? with
    | none => rfl
    | some kept => rfl
  rw [← hfirst]
  -- the two tables of the memory, of graphs and of versions, are kept in the same way
  cases q with
  | graph group name version =>
    refine (Answers.kept?_store m.graphs _ _ answer).trans ?_
    rw [if_pos BEq.rfl]
    rfl
  | versions group name =>
    refine (Answers.kept?_store m.versions _ _ answer).trans ?_
    rw [if_pos BEq.rfl]
    rfl

/-- Storing an answer does not touch what is kept for other questions. -/
theorem kept?_store_of_ne (m : Memory σ) {q other : Question} (hne : other ≠ q) (answer : Option q.Found) :
    (m.store q answer).kept? other = m.kept? other := by
  -- two questions differ in their kind, or in what they ask about
  cases q with
  | graph group name version =>
    cases other with
    | graph group' name' version' =>
      have hkeys : ((group, name, version) == (group', name', version')) = false := by
        refine beq_false_of_ne fun heq => hne ?_
        cases heq
        rfl
      refine (Answers.kept?_store m.graphs _ _ answer).trans ?_
      rw [hkeys]
      exact Option.or_none
    | versions group' name' => rfl
  | versions group name =>
    cases other with
    | graph group' name' version' => rfl
    | versions group' name' =>
      have hkeys : ((group, name) == (group', name')) = false := by
        refine beq_false_of_ne fun heq => hne ?_
        cases heq
        rfl
      refine (Answers.kept?_store m.versions _ _ answer).trans ?_
      rw [hkeys]
      exact Option.or_none

end Memory

/-- The look into memory. -/
def look (q : Question) : Step (Memory σ) (Option (Option q.Found)) := do
  return (← Step.read).kept? q

/-- The query, with what is noted on its answer. -/
def query (t : Transport σ) (timeout : Int) : (q : Question) → Step (Memory σ) (Option q.Found)
  | .graph group name version => do
    let a : Artifact := { group, name, version }
    let answer ←
      match ← onTransport (graphAnswer? t timeout a) with
      | none => pure none
      | some j => Step.ofExcept ((PackageGraph.read j).mapError .malformedAnswer)
    if answer.isNone then
      Step.warn ("Unknown component " ++ a.path ++ ":" ++ a.version)
    return answer
  | .versions group name => onTransport (versionsAnswer? t timeout group name)

/-- The storing of an answer, and a second look at what is kept then. -/
def settle (q : Question) (answer : Option q.Found) : Step (Memory σ) (Option q.Found) := do
  let memory := (← Step.read).store q answer
  Step.write memory
  return (memory.kept? q).getD answer

/-- The answer to a question, from memory or from the service. -/
def fetch (t : Transport σ) (timeout : Int) (q : Question) : Step (Memory σ) (Option q.Found) := do
  match ← look q with
  | some answer => return answer
  | none => settle q (← query t timeout q)

/-- A graph is fetched by the three steps that all questions share. -/
theorem fetchGraph_eq_fetch (t : Transport σ) (timeout : Int) (a : Artifact) :
    fetchGraph t timeout a = fetch t timeout (.graph a.group a.name a.version) := by
  unfold fetchGraph fetch look
  rw [bind_assoc]
  refine bind_congr fun memory => ?_
  rw [pure_bind]
  have hkept : memory.kept? (.graph a.group a.name a.version) = memory.graphs.kept? (a.group, a.name, a.version) := rfl
  rw [hkept]
  -- nothing more happens if an answer is kept
  cases memory.graphs.kept? (a.group, a.name, a.version) with
  | some answer => rfl
  | none =>
    dsimp only
    unfold query
    rw [bind_assoc]
    refine bind_congr fun json? => ?_
    cases json? with
    | none => rfl
    | some j =>
      dsimp only
      rw [bind_assoc]
      refine bind_congr fun answer => ?_
      cases answer with
      | none => rfl
      | some graph => rfl

/-- So are the versions of a package, where no answer counts as none published. -/
theorem fetchVersions_eq_fetch (t : Transport σ) (timeout : Int) (group name : String) :
    fetchVersions t timeout group name = (·.getD []) <$> fetch t timeout (.versions group name) := by
  unfold fetchVersions fetch look
  rw [bind_assoc, map_bind]
  refine bind_congr fun memory => ?_
  rw [pure_bind]
  have hkept : memory.kept? (.versions group name) = memory.versions.kept? (group, name) := rfl
  rw [hkept]
  cases memory.versions.kept? (group, name) with
  | some answer => rfl
  | none =>
    dsimp only
    unfold query
    rw [map_bind]
    exact bind_congr fun answer => rfl

/-! ## Callers -/

/-- How far a call has come. -/
inductive Stage (α : Type)
  /-- It is about to look into memory. -/
  | entering
  /-- Nothing was kept, and it is about to query. -/
  | asking
  /-- It has an answer that it is about to store. -/
  | told (answer : Option α)
  | returned (answer : Option α)
  | failed (failure : Failure)

namespace Stage

variable {α β : Type}

/-- What a call comes to by a step that gives a value or fails. -/
def ofEnd (f : α → Stage β) : Except Failure α → Stage β
  | .ok a => f a
  | .error failure => .failed failure

/-- The answer that is about to be stored. -/
def told? : Stage α → Option (Option α)
  | .told answer => some answer
  | _ => none

end Stage

/-- Memory, and any number of calls. Those for the same question are told apart by an index. -/
structure System (σ ι : Type) where
  ledger : Ledger (Memory σ)
  stage : (q : Question) → ι → Stage q.Found

/-- Who has a turn. -/
inductive Turn (σ ι : Type)
  /-- A call goes on. -/
  | call (q : Question) (i : ι)
  /-- The service changes to some state. -/
  | service (state : σ)

namespace System

/-- The answer kept for a question. -/
def kept? (s : System σ ι) (q : Question) : Option (Option q.Found) :=
  s.ledger.state.kept? q

/-- No call has begun. -/
def Starting (s : System σ ι) : Prop :=
  ∀ q i, s.stage q i = .entering

variable [DecidableEq ι]

/-- A call takes a step and comes to the stage that its result leads to. -/
def after {α : Type} (s : System σ ι) (q : Question) (i : ι) (step : Step (Memory σ) α) (f : α → Stage q.Found) :
    System σ ι :=
  { ledger := (step.run s.ledger).2
    stage := Function.update s.stage q (Function.update (s.stage q) i (.ofEnd f (step.run s.ledger).1)) }

variable (t : Transport σ) (timeout : Int)

/-- A call goes on: by its look, its query or the storing of its answer. -/
def advance (s : System σ ι) (q : Question) (i : ι) : System σ ι :=
  match s.stage q i with
  | .entering => s.after q i (look q) fun kept? =>
    match kept? with
    | some answer => .returned answer
    | none => .asking
  | .asking => s.after q i (query t timeout q) .told
  | .told answer => s.after q i (settle q answer) .returned
  | .returned _ => s
  | .failed _ => s

/-- What a turn does. -/
def turn (s : System σ ι) : Turn σ ι → System σ ι
  | .call q i => s.advance t timeout q i
  | .service state => { s with ledger := { s.ledger with state := { s.ledger.state with transport := state } } }

/-- What turns do, one after the other. -/
def run (s : System σ ι) (turns : List (Turn σ ι)) : System σ ι :=
  turns.foldl (turn t timeout) s

/-- In one of the turns a call stores the answer to its question, and no other answer was kept before. -/
def StoresFirst (s : System σ ι) (turns : List (Turn σ ι)) (q : Question) (answer : Option q.Found) : Prop :=
  ∃ before i rest, turns = before ++ .call q i :: rest ∧ (s.run t timeout before).kept? q = none ∧
    (s.run t timeout before).stage q i = .told answer

end System

/-! ## One turn -/

/-- The last step of a call gives what is kept already, else the answer it stores. -/
theorem run_settle (q : Question) (answer : Option q.Found) (l : Ledger (Memory σ)) :
    (settle q answer).run l =
      (.ok ((l.state.kept? q).getD answer), { l with state := l.state.store q answer }) := by
  have hrun : (settle q answer).run l =
      (.ok (((l.state.store q answer).kept? q).getD answer), { l with state := l.state.store q answer }) := rfl
  rw [hrun, Memory.kept?_store_self]
  rfl

/-- A query changes nothing that is kept. -/
theorem kept?_query (t : Transport σ) (timeout : Int) (q other : Question) (l : Ledger (Memory σ)) :
    ((query t timeout q).run l).2.state.kept? other = l.state.kept? other := by
  have htransport : ∀ {α : Type} (step : Step σ α),
      Step.Ensures (fun m => m.kept? other = l.state.kept? other) (onTransport step) fun _ => True := by
    intro α step k hk
    refine ⟨?_, fun _ _ => trivial⟩
    rw [← hk]
    -- only the transport may have changed
    cases other with
    | graph group name version => rfl
    | versions group name => rfl
  have hquery : Step.Ensures (fun m => m.kept? other = l.state.kept? other) (query t timeout q) fun _ => True := by
    cases q with
    | versions group name => exact htransport _
    | graph group name version =>
      unfold query
      refine .bind (htransport _) fun json? _ => ?_
      cases json? with
      | none =>
        dsimp only
        rw [pure_bind]
        exact .bind .warn fun _ _ => .pure trivial
      | some j =>
        refine .bind (.ofExcept (Q := fun _ => True) fun _ _ => trivial) fun answer _ => ?_
        cases answer with
        | none => exact .bind .warn fun _ _ => .pure trivial
        | some graph => exact .pure trivial
  exact (hquery l rfl).1

namespace System

variable [DecidableEq ι] {t : Transport σ} {timeout : Int} {s : System σ ι}

theorem stage_after_self {α : Type} (s : System σ ι) (q : Question) (i : ι) (step : Step (Memory σ) α)
    (f : α → Stage q.Found) : (s.after q i step f).stage q i = .ofEnd f (step.run s.ledger).1 := by
  unfold after
  dsimp only
  rw [Function.update_self, Function.update_self]

/-- The stages of other calls stay as they are. -/
theorem stage_after_of_ne {α : Type} (s : System σ ι) {q other : Question} {i j : ι}
    (hne : Turn.call (σ := σ) other j ≠ .call q i) (step : Step (Memory σ) α) (f : α → Stage q.Found) :
    (s.after q i step f).stage other j = s.stage other j := by
  unfold after
  dsimp only
  by_cases hq : other = q
  · subst hq
    have hj : j ≠ i := fun h => hne (by rw [h])
    rw [Function.update_self, Function.update_of_ne hj]
  · rw [Function.update_of_ne hq]

/-- What a turn makes of a call's own stage. -/
theorem stage_advance_self (s : System σ ι) (q : Question) (i : ι) :
    (s.advance t timeout q i).stage q i =
      match s.stage q i with
      | .entering =>
        match s.kept? q with
        | some answer => .returned answer
        | none => .asking
      | .asking => .ofEnd .told ((query t timeout q).run s.ledger).1
      | .told answer => .returned ((s.kept? q).getD answer)
      | .returned answer => .returned answer
      | .failed failure => .failed failure := by
  unfold advance
  -- a call that has ended does nothing in its turn
  cases hstage : s.stage q i with
  | entering =>
    dsimp only
    rw [stage_after_self]
    rfl
  | asking => exact stage_after_self ..
  | told answer =>
    dsimp only
    rw [stage_after_self, run_settle]
    rfl
  | returned answer => exact hstage
  | failed failure => exact hstage

/-- Other calls stay at their stages. -/
theorem stage_advance_of_ne (s : System σ ι) {q other : Question} {i j : ι}
    (hne : Turn.call (σ := σ) other j ≠ .call q i) : (s.advance t timeout q i).stage other j = s.stage other j := by
  unfold advance
  split
  · exact stage_after_of_ne s hne _ _
  · exact stage_after_of_ne s hne _ _
  · exact stage_after_of_ne s hne _ _
  · rfl
  · rfl

/-- A call stores its answer unless there is one already. -/
theorem kept?_advance_self (s : System σ ι) (q : Question) (i : ι) :
    (s.advance t timeout q i).kept? q = (s.kept? q).or (s.stage q i).told? := by
  unfold advance
  cases s.stage q i with
  | entering => exact Option.or_none.symm
  | asking => exact (kept?_query t timeout q q s.ledger).trans Option.or_none.symm
  | told answer =>
    refine (Memory.kept?_store_self s.ledger.state q answer).trans ?_
    unfold kept? Stage.told?
    cases s.ledger.state.kept? q with
    | none => rfl
    | some kept => rfl
  | returned answer => exact Option.or_none.symm
  | failed failure => exact Option.or_none.symm

/-- A call changes nothing that is kept for other questions. -/
theorem kept?_advance_of_ne (s : System σ ι) {q other : Question} (hne : other ≠ q) (i : ι) :
    (s.advance t timeout q i).kept? other = s.kept? other := by
  unfold advance
  split
  · rfl
  · exact kept?_query t timeout q other s.ledger
  · exact Memory.kept?_store_of_ne s.ledger.state hne _
  · rfl
  · rfl

/-- What is kept stays. -/
theorem kept?_turn_of_some {q : Question} {v : Option q.Found} (h : s.kept? q = some v) (x : Turn σ ι) :
    (s.turn t timeout x).kept? q = some v := by
  cases x with
  | service state =>
    cases q with
    | graph group name version => exact h
    | versions group name => exact h
  | call other i =>
    show (s.advance t timeout other i).kept? q = some v
    by_cases hq : q = other
    · subst hq
      rw [kept?_advance_self, h]
      rfl
    · rw [kept?_advance_of_ne s hq, h]

/-- What a turn newly keeps for a question was stored by a call for it. -/
theorem kept?_turn_of_none {q : Question} (h : s.kept? q = none) {x : Turn σ ι} {v : Option q.Found} :
    (s.turn t timeout x).kept? q = some v ↔ ∃ i, x = .call q i ∧ s.stage q i = .told v := by
  cases x with
  | service state =>
    have hsame : (s.turn t timeout (.service state)).kept? q = s.kept? q := by
      cases q with
      | graph group name version => rfl
      | versions group name => rfl
    simp [hsame, h]
  | call other i =>
    show (s.advance t timeout other i).kept? q = some v ↔ _
    -- only a call for the question stores an answer to it
    by_cases hq : q = other
    · subst hq
      rw [kept?_advance_self, h, Option.none_or]
      cases hstage : s.stage q i <;> simp [Stage.told?, hstage]
    · rw [kept?_advance_of_ne s hq, h]
      simp [Ne.symm hq]

/-- A call that has returned stays so. -/
theorem stage_turn_of_returned {q : Question} {i : ι} {v : Option q.Found} (h : s.stage q i = .returned v)
    (x : Turn σ ι) : (s.turn t timeout x).stage q i = .returned v := by
  cases x with
  | service state => exact h
  | call other j =>
    show (s.advance t timeout other j).stage q i = .returned v
    by_cases hsame : Turn.call (σ := σ) q i = .call other j
    · cases hsame
      rw [stage_advance_self, h]
    · rw [stage_advance_of_ne s hsame, h]

/-- What calls have returned is kept. -/
def Settled (s : System σ ι) : Prop :=
  ∀ q i v, s.stage q i = .returned v → s.kept? q = some v

omit [DecidableEq ι] in
theorem Starting.settled (h : s.Starting) : s.Settled := by
  intro q i v hv
  rw [h q i] at hv
  cases hv

/-- A call returns what is kept already, or what it has just stored. -/
theorem Settled.advance (h : s.Settled) (q : Question) (i : ι) {v : Option q.Found}
    (hv : (s.advance t timeout q i).stage q i = .returned v) : (s.advance t timeout q i).kept? q = some v := by
  rw [stage_advance_self] at hv
  rw [kept?_advance_self]
  cases hstage : s.stage q i with
  -- the answer that the call found is still kept
  | entering =>
    rw [hstage] at hv
    cases hkept : s.kept? q with
    | none =>
      rw [hkept] at hv
      cases hv
    | some answer =>
      rw [hkept] at hv
      cases hv
      rfl
  | asking =>
    rw [hstage] at hv
    cases hquery : ((query t timeout q).run s.ledger).1 with
    | ok answer =>
      rw [hquery] at hv
      cases hv
    | error failure =>
      rw [hquery] at hv
      cases hv
  -- the call returns what is kept after it has stored its own answer
  | told answer =>
    rw [hstage] at hv
    cases hv
    cases s.kept? q with
    | none => rfl
    | some kept => rfl
  | returned answer =>
    rw [hstage] at hv
    cases hv
    rw [h q i v hstage]
    rfl
  | failed failure =>
    rw [hstage] at hv
    cases hv

/-- One turn keeps that what was returned is kept. -/
theorem Settled.turn (h : s.Settled) (x : Turn σ ι) : (s.turn t timeout x).Settled := by
  -- the service's turns change no answer
  intro q i v hv
  cases x with
  | service state => exact kept?_turn_of_some (h q i v hv) (.service state)
  | call other j =>
    by_cases hsame : Turn.call (σ := σ) q i = .call other j
    · cases hsame
      exact h.advance q i hv
    · -- the turn of another call does not take away what is kept for this one
      have hbefore : s.stage q i = .returned v := (stage_advance_of_ne s hsame).symm.trans hv
      exact kept?_turn_of_some (h q i v hbefore) (.call other j)

/-! ## Runs -/

theorem run_cons (s : System σ ι) (x : Turn σ ι) (turns : List (Turn σ ι)) :
    s.run t timeout (x :: turns) = (s.turn t timeout x).run t timeout turns := rfl

theorem run_append (s : System σ ι) (turns more : List (Turn σ ι)) :
    s.run t timeout (turns ++ more) = (s.run t timeout turns).run t timeout more :=
  List.foldl_append ..

theorem Settled.run (h : s.Settled) (turns : List (Turn σ ι)) : (s.run t timeout turns).Settled := by
  induction turns generalizing s with
  | nil => exact h
  | cons x turns ih => exact ih (h.turn x)

/-- What is kept stays kept. -/
theorem kept?_run_of_some {q : Question} {v : Option q.Found} (h : s.kept? q = some v) (turns : List (Turn σ ι)) :
    (s.run t timeout turns).kept? q = some v := by
  induction turns generalizing s with
  | nil => exact h
  | cons x turns ih => exact ih (kept?_turn_of_some h x)

/-- A call that has returned stays so. -/
theorem stage_run_of_returned {q : Question} {i : ι} {v : Option q.Found} (h : s.stage q i = .returned v)
    (turns : List (Turn σ ι)) : (s.run t timeout turns).stage q i = .returned v := by
  induction turns generalizing s with
  | nil => exact h
  | cons x turns ih => exact ih (stage_turn_of_returned h x)

/-- An answer is kept after a run just if it was kept before, or is the first one that a call stores. -/
theorem kept?_run_iff {turns : List (Turn σ ι)} {q : Question} {v : Option q.Found} :
    (s.run t timeout turns).kept? q = some v ↔ s.kept? q = some v ∨ s.StoresFirst t timeout turns q v := by
  constructor
  · intro h
    induction turns generalizing s with
    | nil => exact .inl h
    | cons x turns ih =>
      rcases ih h with hkept | ⟨before, i, rest, rfl, hnone, htold⟩
      · -- the answer is kept after the first turn, so it was there before, or this turn stores it
        cases hbefore : s.kept? q with
        | some w =>
          have hw : (s.turn t timeout x).kept? q = some w := kept?_turn_of_some hbefore x
          exact .inl (hw.symm.trans hkept)
        | none =>
          obtain ⟨i, rfl, htold⟩ := (kept?_turn_of_none hbefore).1 hkept
          exact .inr ⟨[], i, turns, rfl, hbefore, htold⟩
      · exact .inr ⟨x :: before, i, rest, rfl, hnone, htold⟩
  · rintro (h | ⟨before, i, rest, rfl, hnone, htold⟩)
    · exact kept?_run_of_some h turns
    · rw [run_append, run_cons]
      exact kept?_run_of_some ((kept?_turn_of_none hnone).2 ⟨i, rfl, htold⟩) rest

/-- As soon as an answer is kept, a call that begins returns it in its first turn. -/
theorem stage_run_of_kept {q : Question} {v : Option q.Found} (h : s.kept? q = some v) {i : ι}
    (hstage : s.stage q i = .entering) (turns : List (Turn σ ι)) :
    (.call q i ∈ turns → (s.run t timeout turns).stage q i = .returned v) ∧
      (.call q i ∉ turns → (s.run t timeout turns).stage q i = .entering) := by
  induction turns generalizing s with
  | nil => exact ⟨fun hmem => absurd hmem List.not_mem_nil, fun _ => hstage⟩
  | cons x turns ih =>
    by_cases hown : x = .call q i
    · subst hown
      have hreturned : (s.turn t timeout (.call q i)).stage q i = .returned v := by
        refine (stage_advance_self s q i).trans ?_
        rw [hstage, h]
      -- what has returned takes no part in the turns that follow
      exact ⟨fun _ => stage_run_of_returned hreturned turns, fun hmem => absurd (List.mem_cons_self ..) hmem⟩
    · have hother : (s.turn t timeout x).stage q i = .entering := by
        cases x with
        | service state => exact hstage
        | call other j => exact (stage_advance_of_ne s fun heq => hown heq.symm).trans hstage
      rw [List.mem_cons, or_iff_right (Ne.symm hown)]
      exact ih (kept?_turn_of_some h x) hother

/-- Calls for one question change nothing that is kept for another. -/
theorem kept?_run_of_ne {q other : Question} (hne : other ≠ q) {turns : List (Turn σ ι)}
    (hturns : ∀ x ∈ turns, ∃ i, x = .call q i) : (s.run t timeout turns).kept? other = s.kept? other := by
  induction turns generalizing s with
  | nil => rfl
  | cons x turns ih =>
    obtain ⟨i, rfl⟩ := hturns x (List.mem_cons_self ..)
    -- each turn is one of a call for the first question
    refine (ih fun y hy => hturns y (List.mem_cons_of_mem _ hy)).trans ?_
    exact kept?_advance_of_ne s hne i

end System

/-! ## One call alone -/

/-- What is left of a call if no other call comes between. -/
def Stage.rest (t : Transport σ) (timeout : Int) {q : Question} : Stage q.Found → Step (Memory σ) (Option q.Found)
  | .entering => fetch t timeout q
  | .asking => query t timeout q >>= settle q
  | .told answer => settle q answer
  | .returned answer => pure answer
  | .failed failure => Step.fail failure

/-- The turns that are left of a call, at most. -/
def Stage.turnsLeft {α : Type} : Stage α → Nat
  | .entering => 3
  | .asking => 2
  | .told _ => 1
  | .returned _ => 0
  | .failed _ => 0

/-- Nothing is left of a call without turns. -/
theorem Stage.eq_ofEnd_of_turnsLeft (t : Transport σ) (timeout : Int) {q : Question} {stage : Stage q.Found}
    (h : stage.turnsLeft = 0) (l : Ledger (Memory σ)) :
    stage = .ofEnd .returned ((stage.rest t timeout).run l).1 ∧ ((stage.rest t timeout).run l).2 = l := by
  cases stage with
  | returned answer => exact ⟨rfl, rfl⟩
  | failed failure => exact ⟨rfl, rfl⟩
  | entering => cases h
  | asking => cases h
  | told answer => cases h

namespace System

variable [DecidableEq ι] {t : Transport σ} {timeout : Int}

/-- A turn brings a call one stage further. -/
theorem turnsLeft_advance (s : System σ ι) (q : Question) (i : ι) :
    ((s.advance t timeout q i).stage q i).turnsLeft ≤ (s.stage q i).turnsLeft - 1 := by
  rw [stage_advance_self]
  cases s.stage q i with
  | entering =>
    cases s.kept? q with
    | none => exact Nat.le_refl 2
    | some answer => exact Nat.zero_le 2
  | asking =>
    cases ((query t timeout q).run s.ledger).1 with
    | ok answer => exact Nat.le_refl 1
    | error failure => exact Nat.zero_le 1
  | told answer => exact Nat.le_refl 0
  | returned answer => exact Nat.le_refl 0
  | failed failure => exact Nat.le_refl 0

/-- With its turn a call does a part of what is left of it. -/
theorem run_rest_advance (s : System σ ι) (q : Question) (i : ι) :
    (((s.advance t timeout q i).stage q i).rest t timeout).run (s.advance t timeout q i).ledger =
      ((s.stage q i).rest t timeout).run s.ledger := by
  rw [stage_advance_self]
  unfold advance
  cases s.stage q i with
  | entering =>
    have hlook : (look q).run s.ledger = (.ok (s.kept? q), s.ledger) := rfl
    unfold Stage.rest fetch
    dsimp only
    rw [Step.run_bind _ _ s.ledger, hlook]
    cases s.kept? q with
    | none => rfl
    | some answer => rfl
  | asking =>
    -- a query that fails leaves nothing to be stored
    show _ = (query t timeout q >>= settle q).run s.ledger
    rw [Step.run_bind]
    unfold after
    dsimp only
    rcases (query t timeout q).run s.ledger with ⟨result, l⟩
    cases result with
    | ok answer => rfl
    | error failure => rfl
  | told answer =>
    show _ = (settle q answer).run s.ledger
    unfold after
    dsimp only
    rw [run_settle]
    rfl
  | returned answer => rfl
  | failed failure => rfl

/-- A call whose turns are not interrupted is a fetch. -/
theorem run_uninterrupted {s : System σ ι} {q : Question} {i : ι} (h : s.stage q i = .entering) :
    (s.run t timeout [.call q i, .call q i, .call q i]).ledger = ((fetch t timeout q).run s.ledger).2 ∧
      (s.run t timeout [.call q i, .call q i, .call q i]).stage q i =
        .ofEnd .returned ((fetch t timeout q).run s.ledger).1 := by
  let s₁ := s.advance t timeout q i
  let s₂ := s₁.advance t timeout q i
  let s₃ := s₂.advance t timeout q i
  have hrest : ((s₃.stage q i).rest t timeout).run s₃.ledger = (fetch t timeout q).run s.ledger := by
    rw [run_rest_advance, run_rest_advance, run_rest_advance, h]
    rfl
  -- each turn takes one off the three that a call has at most
  have hleft : (s₃.stage q i).turnsLeft = 0 := by
    have hthree : (s.stage q i).turnsLeft = 3 := by rw [h]; rfl
    have h₁ : (s₁.stage q i).turnsLeft ≤ (s.stage q i).turnsLeft - 1 := turnsLeft_advance s q i
    have h₂ : (s₂.stage q i).turnsLeft ≤ (s₁.stage q i).turnsLeft - 1 := turnsLeft_advance s₁ q i
    have h₃ : (s₃.stage q i).turnsLeft ≤ (s₂.stage q i).turnsLeft - 1 := turnsLeft_advance s₂ q i
    omega
  obtain ⟨hstage, hledger⟩ := Stage.eq_ofEnd_of_turnsLeft t timeout hleft s₃.ledger
  rw [hrest] at hstage hledger
  exact ⟨hledger.symm, hstage⟩

end System

/-! ## All calls -/

/-- Callers that ask at the same time agree. Take any calls that have not begun, any answers kept before, and any turns
of the calls and of a service that may answer differently each time.

* What a call returns was kept before, or is the first answer that a call for its question stores.
* All calls for a question that return, return the same.
* Once a call has returned an answer, it stays so, and every call for its question that begins later returns the same
  answer as soon as it has a turn.
* Calls for one question never change what is kept for another.
* A call whose turns are not interrupted does what `fetch` does, which is how graphs and versions are fetched. -/
theorem fetches_agree [DecidableEq ι] (t : Transport σ) (timeout : Int) {s : System σ ι} (hs : s.Starting)
    (turns : List (Turn σ ι)) (q : Question) :
    (∀ i v, (s.run t timeout turns).stage q i = .returned v →
      s.kept? q = some v ∨ s.StoresFirst t timeout turns q v) ∧
    (∀ i j v w, (s.run t timeout turns).stage q i = .returned v → (s.run t timeout turns).stage q j = .returned w →
      v = w) ∧
    (∀ i v more, (s.run t timeout turns).stage q i = .returned v →
      (s.run t timeout (turns ++ more)).stage q i = .returned v ∧
        ∀ j, (s.run t timeout turns).stage q j = .entering → .call q j ∈ more →
          (s.run t timeout (turns ++ more)).stage q j = .returned v) ∧
    (∀ other more, other ≠ q → (∀ x ∈ more, ∃ i, x = .call q i) →
      (s.run t timeout (turns ++ more)).kept? other = (s.run t timeout turns).kept? other) ∧
    ∀ i, (s.run t timeout turns).stage q i = .entering →
      (s.run t timeout (turns ++ [.call q i, .call q i, .call q i])).ledger =
          ((fetch t timeout q).run (s.run t timeout turns).ledger).2 ∧
        (s.run t timeout (turns ++ [.call q i, .call q i, .call q i])).stage q i =
          .ofEnd .returned ((fetch t timeout q).run (s.run t timeout turns).ledger).1 := by
  have hsettled : (s.run t timeout turns).Settled := hs.settled.run turns
  -- all calls that return give what is kept, and one answer is kept for a question
  refine ⟨?_, ?_, ?_, ?_, ?_⟩
  · intro i v hv
    exact System.kept?_run_iff.1 (hsettled q i v hv)
  · intro i j v w hv hw
    exact Option.some.inj ((hsettled q i v hv).symm.trans (hsettled q j w hw))
  · intro i v more hv
    rw [System.run_append]
    exact ⟨System.stage_run_of_returned hv more,
      fun j hj hmem => (System.stage_run_of_kept (hsettled q i v hv) hj more).1 hmem⟩
  · intro other more hne hmore
    rw [System.run_append]
    exact System.kept?_run_of_ne hne hmore
  · intro i hi
    rw [System.run_append]
    exact System.run_uninterrupted hi

/-! ## A service that changes its mind -/

namespace Fickle

/-- The description of a package with one published version. -/
def description (version : String) : Json :=
  .object [("versions", .array [.object [("versionKey", .object [("version", .string version)])]])]

/-- The first answer is another one than all that follow. -/
def transport : Transport Bool where
  send _ asked := (.answer 200 (description (if asked then "2.0" else "1.0")), true)

/-- Nobody has asked yet. -/
def start : System Bool Nat where
  ledger := ⟨{ transport := false }, []⟩
  stage _ _ := .entering

def question : Question :=
  .versions "org" "library"

/-- Both calls ask before one of them stores its answer. The second one is faster. -/
def turns : List (Turn Bool Nat) :=
  [.call question 0, .call question 1, .call question 0, .call question 1, .call question 1, .call question 0]

/-- The first call returns what the second one stored, and not what it was told itself. So does a third call, although
the service is back at its first answer. -/
theorem fetches_agree_fickle :
    start.Starting ∧ (start.run transport 30 (turns.take 4)).stage question 0 = .told (some ["1.0"]) ∧
    (start.run transport 30 turns).stage question 0 = .returned (some ["2.0"]) ∧
    start.StoresFirst transport 30 turns question (some ["2.0"]) ∧
    (start.run transport 30 (turns ++ [.service false, .call question 2])).stage question 2 = .returned (some ["2.0"]) := by
  have hstart : start.Starting := fun _ _ => rfl
  have hreturned : (start.run transport 30 turns).stage question 0 = .returned (some ["2.0"]) := rfl
  obtain ⟨hfirst, -, hlater, -⟩ := fetches_agree transport 30 hstart turns question
  refine ⟨hstart, rfl, hreturned, (hfirst 0 _ hreturned).resolve_left nofun, ?_⟩
  exact (hlater 0 _ [.service false, .call question 2] hreturned).2 2 rfl (by simp)

end Fickle

end VersionAudit.DepsDev
