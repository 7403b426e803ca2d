import VersionAudit.Proofs.Analysis.Verdicts
import VersionAudit.Proofs.Resolution.Rejudging
import VersionAudit.Proofs.Step.Related

/-!
# Two runs of the tasks

The tasks of a project, run twice: with different things remembered, and the second time with more waivers. What
the resolver remembers must not show in its answers (`Resolver.Blind`). Then every task ends alike in both runs,
and its requests differ only in verdicts that the waivers silence (`Setting.silence`).
-/

namespace VersionAudit

open Step (Related Alike)

variable {σ : Type}

/-- The answers of a resolver are the same from all ledgers that `P` links. -/
structure Resolver.Blind (P : Ledger σ → Ledger σ → Prop) (r : Resolver σ) : Prop where
  node : ∀ policy n f, Related P (r.mapNode policy n f) (r.mapNode policy n f) Eq
  versions : ∀ a, Related P (r.versions a) (r.versions a) Eq
  warn : ∀ text, Related P (Step.warn text) (Step.warn text) Eq

/-- So are its maps of projects, and notes do not tell the ledgers apart. -/
structure Resolver.Repeats (P : Ledger σ → Ledger σ → Prop) (r : Resolver σ) : Prop extends r.Blind P where
  project : ∀ policy p f, Related P (r.mapProject policy p f) (r.mapProject policy p f) Eq
  note : ∀ level speaker text, Related P (Step.note level speaker text) (Step.note level speaker text) Eq

/-- From states that `R` links the resolver answers in the same way, and leaves such states. -/
structure Resolver.AnswersAlike (R : σ → σ → Prop) (r : Resolver σ) : Prop where
  project : ∀ p f, Related (fun l k => R l.state k.state) (r.project p f) (r.project p f) Eq
  node : ∀ n f, Related (fun l k => R l.state k.state) (r.node n f) (r.node n f) Eq
  versions : ∀ a, Related (fun l k => R l.state k.state) (r.versions a) (r.versions a) Eq

/-- What is made of such answers is the same too. -/
theorem Resolver.AnswersAlike.repeats {R : σ → σ → Prop} {r : Resolver σ} (h : r.AnswersAlike R) :
    r.Repeats fun l k => R l.state k.state := by
  have hmap : ∀ policy f (o : Outcome), Related (fun l k => R l.state k.state) (o.toMap policy f) (o.toMap policy f) Eq :=
    fun policy f o => o.related_toMap (fun _ _ _ hlk => ⟨hlk, .ok rfl⟩) policy f
  refine { node := ?_, versions := h.versions, warn := ?_, project := ?_, note := ?_ }
  · intro policy n f
    refine .bind (h.node n f) ?_
    rintro o _ rfl
    exact hmap policy f o
  · exact fun _ _ _ hlk => ⟨hlk, .ok rfl⟩
  · intro policy p f
    refine .bind (h.project p f) ?_
    rintro o _ rfl
    exact hmap policy f o
  · exact fun _ _ _ _ _ hlk => ⟨hlk, .ok rfl⟩

/-! ## The ends of tasks -/

/-- The end of a task with its requests changed. -/
def TaskEnd.mapRequests (f : Identity × VersionRequest → Identity × VersionRequest) (e : TaskEnd) : TaskEnd :=
  (e.1, e.2.map (List.map f))

/-- Changed verdicts stay out of all failures, and show in the map only. -/
theorem alike_collect (q : Rejudging) (ends : List TaskEnd) :
    Alike (fun m m' => m.rejudge q = m') (collect ends)
      (collect (ends.map (·.mapRequests (ResolutionMap.rejudgeEntry q)))) := by
  have hfailure : ∀ e : TaskEnd, (e.mapRequests (ResolutionMap.rejudgeEntry q)).isFailure = e.isFailure := by
    rintro ⟨d, _ | _⟩ <;> rfl
  have hmessage : ∀ e : TaskEnd, (e.mapRequests (ResolutionMap.rejudgeEntry q)).message? = e.message? := by
    rintro ⟨d, (_ | _) | _⟩ <;> rfl
  have hunresolved : ∀ e : TaskEnd, (e.mapRequests (ResolutionMap.rejudgeEntry q)).unresolved = e.unresolved := by
    rintro ⟨d, (_ | _) | _⟩ <;> rfl
  have hrequests : ∀ e : TaskEnd, (e.mapRequests (ResolutionMap.rejudgeEntry q)).requests =
      e.requests.map (ResolutionMap.rejudgeEntry q) := by
    rintro ⟨d, _ | _⟩ <;> rfl
  -- failures are told by messages and by names, which verdicts do not enter
  unfold collect
  simp only [List.any_map, List.filterMap_map, List.flatMap_map, Function.comp_def, hfailure, hmessage, hunresolved,
    hrequests]
  split
  · exact .error _
  · refine .ok ?_
    rw [← ResolutionMap.ofList_rejudge, List.map_flatMap]

/-! ## More waivers -/

/-- The configuration with more waivers. -/
def Configuration.waiving (c : Configuration) (more : List Waiver) : Configuration :=
  { c with waivers := c.waivers ++ more }

namespace Setting

/-- The setting with more waivers. -/
def waiving (s : Setting σ) (more : List Waiver) : Setting σ :=
  { s with configuration := s.configuration.waiving more }

/-- Without more waivers the setting is the same. -/
theorem waiving_nil (s : Setting σ) : s.waiving [] = s := by
  unfold waiving Configuration.waiving
  rw [List.append_nil]

/-- Whether one of the waivers covers a version expected of an artifact, with the version that the project's graph
has for it. -/
def isSilenced (s : Setting σ) (more : List Waiver) (name : Identity) (expected : Version) : Bool :=
  match s.root.all.find? name with
  | some n => more.any (·.covers n expected ⟨n.artifact.version⟩)
  | none => false

/-- Whether a request is silenced depends on the artifact and the version up to equality. -/
theorem isSilenced_congr (s : Setting σ) (more : List Waiver) {m n : Identity} {v w : Version}
    (hn : (m == n) = true) (hv : (v == w) = true) : s.isSilenced more m v = s.isSilenced more n w := by
  have hcovers : ∀ (node : Node) (r : Version) (x : Waiver), x.covers node v r = x.covers node w r :=
    fun node r x => x.covers_congr BEq.rfl hv BEq.rfl
  unfold isSilenced
  rw [OrderedMap.find?_congr _ hn]
  simp only [hcovers]

theorem isSilenced_nil (s : Setting σ) (name : Identity) (expected : Version) :
    s.isSilenced [] name expected = false := by
  unfold isSilenced
  split <;> rfl

/-- A verdict that one of the waivers covers is silenced. -/
def silencing (s : Setting σ) (more : List Waiver) : Rejudging where
  verdict name expected conflict := conflict && !s.isSilenced more name expected
  artifact_congr := by
    intro m n hn
    funext v conflict
    rw [s.isSilenced_congr more hn BEq.rfl]
  version_congr := by
    intro n v w hv
    funext conflict
    rw [s.isSilenced_congr more BEq.rfl hv]

/-- The request with its verdict silenced. -/
def silence (s : Setting σ) (more : List Waiver) : Identity × VersionRequest → Identity × VersionRequest :=
  ResolutionMap.rejudgeEntry (s.silencing more)

theorem silence_nil (s : Setting σ) (e : Identity × VersionRequest) : s.silence [] e = e := by
  show (e.1, (⟨e.2.expected, { e.2.request with conflict := _ && !s.isSilenced [] _ _ }⟩ : VersionRequest)) = e
  rw [isSilenced_nil, Bool.not_false, Bool.and_true]

/-- The sources are linked, and the assignments are what look-ups have left of one that remembers nothing. -/
structure Linked (P : Ledger σ → Ledger σ → Prop) (fresh : Assignment) (l k : Ledger (Bench σ)) : Prop where
  source : P ⟨l.state.source, l.notes⟩ ⟨k.state.source, k.notes⟩
  start : fresh.Remembers fresh
  left : fresh.Left l.state.assignment
  right : fresh.Left k.state.assignment

section Tasks

variable {P : Ledger σ → Ledger σ → Prop} {fresh : Assignment} {s : Setting σ} {more : List Waiver}

/-! ## The steps of a task -/

theorem related_onSource {α : Type} {x y : Step σ α} {S : α → α → Prop} (h : Related P x y S) :
    Related (Linked P fresh) (onSource x) (onSource y) S := by
  intro l k hlk
  obtain ⟨hsource, halike⟩ := h _ _ hlk.source
  exact ⟨{ hlk with source := hsource }, halike⟩

/-- Both runs look up the same strategy, whatever their caches hold by now. -/
theorem related_strategyFor (n : Identity) :
    Related (Linked P fresh) (strategyFor n) (strategyFor n) fun a b => a = fresh.lookup n ∧ b = fresh.lookup n := by
  intro l k hlk
  refine ⟨⟨hlk.source, hlk.start, hlk.left.strategy n, hlk.right.strategy n⟩, .ok ⟨?_, ?_⟩⟩
  · exact Assignment.strategy_eq_lookup (hlk.left.remembers hlk.start) n
  · exact Assignment.strategy_eq_lookup (hlk.right.remembers hlk.start) n

theorem related_warn (hs : s.resolver.Blind P) (text : String) :
    Related (Linked P fresh) (Step.warn text) (Step.warn text) Eq := by
  intro l k hlk
  exact ⟨{ hlk with source := (hs.warn text _ _ hlk.source).1 }, .ok rfl⟩

/-- More waivers turn a conflict into none, and nothing else. -/
theorem related_inConflict (n : Node) (name : Identity) (expected resolved : Version) :
    Related (Linked P fresh) (s.inConflict n name expected resolved)
      ((s.waiving more).inConflict n name expected resolved)
      fun a b => (a && !more.any (·.covers n expected resolved)) = b := by
  have hwaived : isWaived (s.waiving more).configuration n expected resolved =
      (isWaived s.configuration n expected resolved || more.any (·.covers n expected resolved)) :=
    List.any_append
  unfold inConflict
  rw [hwaived]
  by_cases hold : isWaived s.configuration n expected resolved = true
  · rw [hold, Bool.true_or, if_pos rfl]
    exact .pure rfl
  · rw [if_neg hold, Bool.eq_false_iff.2 hold, Bool.false_or]
    cases hnew : more.any (·.covers n expected resolved) with
    | false =>
      refine .bind (related_strategyFor name) ?_
      rintro a b ⟨rfl, rfl⟩
      exact .pure (by simp)
    | true =>
      -- the second run does not look the strategy up
      rw [if_pos rfl]
      intro l k hlk
      exact ⟨{ hlk with left := hlk.left.strategy name }, .ok (by simp)⟩

/-- The direct request of the second run is that of the first, silenced if a waiver covers it. -/
theorem related_directRequest (hs : s.resolver.Blind P) (hroot : s.root.Coherent) {d : Dependency} {n : Node}
    (hn : s.root.direct.find? (.ofArtifact d.artifact) = some n) :
    Related (Linked P fresh) (s.directRequest d n) ((s.waiving more).directRequest d n)
      fun e e' => s.silence more e = e' := by
  unfold directRequest
  refine .bind (related_onSource (hs.versions _)) ?_
  rintro versions _ rfl
  dsimp only
  split
  · exact .fail
  · refine .bind (related_inConflict n _ _ _) ?_
    rintro conflict _ rfl
    refine .pure ?_
    -- the node of the project's own graph is the one that the waivers are asked about
    have hsilenced : s.isSilenced more (.ofArtifact d.artifact) ⟨n.artifact.version⟩ =
        more.any (·.covers n ⟨n.artifact.version⟩ ⟨n.artifact.version⟩) := by
      unfold isSilenced
      rw [hroot.direct _ _ hn]
    rw [← hsilenced]
    rfl

/-- The waivers are asked about the node of the dependency's own graph, and answer as for that of the project's
graph. -/
theorem related_transitiveRequest (hroot : s.root.Coherent) (requester : Identity) (n : Node) :
    Related (Linked P fresh) (s.transitiveRequest requester n) ((s.waiving more).transitiveRequest requester n)
      (Option.Rel fun e e' => s.silence more e = e') := by
  unfold transitiveRequest
  have hgraph : (s.waiving more).root = s.root := rfl
  rw [hgraph]
  dsimp only
  cases hselected : s.root.all.find? n.identity with
  | none => exact .pure .none
  | some selected =>
    refine .bind (related_inConflict n _ _ _) ?_
    rintro conflict _ rfl
    refine .pure (.some ?_)
    -- both nodes are of the same artifact, so that a waiver covers both or none
    have hid : (n.identity == selected.identity) = true := BEq.symm (hroot.identity _ _ hselected)
    have hcovers : ∀ w : Waiver, w.covers n ⟨n.artifact.version⟩ ⟨selected.artifact.version⟩ =
        w.covers selected ⟨n.artifact.version⟩ ⟨selected.artifact.version⟩ :=
      fun w => w.covers_congr hid BEq.rfl BEq.rfl
    have hsilenced : s.isSilenced more n.identity ⟨n.artifact.version⟩ =
        more.any (·.covers n ⟨n.artifact.version⟩ ⟨selected.artifact.version⟩) := by
      unfold isSilenced
      simp only [hselected, hcovers]
    rw [← hsilenced]
    rfl

/-- In both runs all requests below a dependency are the same but for the verdicts that are silenced. -/
theorem related_transitiveRequests (hs : s.resolver.Blind P) (hroot : s.root.Coherent) (d : Dependency) (n : Node)
    (f : Filter) :
    Related (Linked P fresh) (s.transitiveRequests d n f) ((s.waiving more).transitiveRequests d n f)
      fun es es' => es.map (s.silence more) = es' := by
  unfold transitiveRequests
  refine .bind (related_onSource (hs.node _ n _)) ?_
  rintro map _ rfl
  refine .bind (.ofExcept (Step.alike_self _)) ?_
  rintro nodes _ rfl
  refine .mono (.filterMapM fun m _ => related_transitiveRequest hroot _ m) ?_
  intro es es' h
  rwa [← List.forall₂_map_left_iff, List.forall₂_eq_eq_eq] at h

/-- The transitive parts are related, and so are their failures. -/
theorem related_transitivePart (hs : s.resolver.Blind P) (hroot : s.root.Coherent) (d : Dependency) (n : Node) :
    Related (Linked P fresh) (s.transitivePart d n) ((s.waiving more).transitivePart d n)
      fun es es' => es.map (s.silence more) = es' := by
  unfold transitivePart
  refine .bind (.ofExcept (Step.alike_self _)) ?_
  rintro f _ rfl
  refine .bind (.outcome (related_transitiveRequests hs hroot d n f)) ?_
  intro r r' halike
  cases halike with
  | ok hes => exact .pure hes
  | error failure =>
    dsimp only
    split
    · -- a model that cannot be read leaves a note in both runs
      split
      · refine .bind (related_warn hs _) fun _ _ _ => ?_
        exact .pure rfl
      · exact .pure rfl
    · exact .fail

/-- Visibility is checked in both runs alike. -/
theorem related_checkVisible (visible : Filter) (d : Dependency) (n : Node) :
    Related (Linked P fresh) (checkVisible visible d n) (checkVisible visible d n) Eq := by
  unfold checkVisible
  split
  · exact .pure rfl
  · exact .fail

/-- The direct parts are related. -/
theorem related_directPart (hs : s.resolver.Blind P) (hroot : s.root.Coherent) (visible : Filter) (d : Dependency) :
    Related (Linked P fresh) (s.directPart visible d) ((s.waiving more).directPart visible d)
      fun es es' => es.map (s.silence more) = es' := by
  have hgraph : (s.waiving more).root = s.root := rfl
  unfold directPart
  rw [hgraph]
  split
  · exact .pure rfl
  · rename_i n hn
    refine .bind (related_checkVisible visible d n) fun _ _ _ => ?_
    refine .bind (related_directRequest hs hroot hn) ?_
    rintro e _ rfl
    exact .pure rfl

/-- The contribution of a dependency in the second run is that of the first, silenced. -/
theorem related_contribution (hs : s.resolver.Blind P) (hroot : s.root.Coherent) (visible : Filter)
    (d : Dependency) :
    Related (Linked P fresh) (s.contribution visible d) ((s.waiving more).contribution visible d)
      fun es es' => es.map (s.silence more) = es' := by
  have hgraph : (s.waiving more).root = s.root := rfl
  unfold contribution
  refine .bind (related_directPart hs hroot visible d) ?_
  rintro direct _ rfl
  rw [hgraph]
  split
  · exact .pure rfl
  · rename_i n _
    refine .bind (related_checkVisible visible d n) fun _ _ _ => ?_
    split
    · exact .pure rfl
    · refine .bind (related_transitivePart hs hroot d n) ?_
      rintro transitive _ rfl
      exact .pure List.map_append

/-- A task ends alike in both runs. -/
theorem related_task (hs : s.resolver.Blind P) (hroot : s.root.Coherent) (visible : Filter)
    (d : Option Dependency) :
    Related (Linked P fresh) (s.task visible d) ((s.waiving more).task visible d)
      fun es es' => es.map (s.silence more) = es' := by
  cases d with
  | none => exact .fail
  | some d => exact related_contribution hs hroot visible d

/-- The end of a task in both runs: the requests of the second are those of the first, silenced. -/
theorem related_attempt (hs : s.resolver.Blind P) (hroot : s.root.Coherent) (visible : Filter)
    (d : Option Dependency) :
    Related (Linked P fresh) (s.attempt visible d) ((s.waiving more).attempt visible d)
      fun e e' => e.mapRequests (s.silence more) = e' := by
  refine .bind (.outcome (related_task hs hroot visible d)) fun r r' halike => .pure ?_
  cases halike with
  | ok hes => exact congrArg (fun es => (d, Except.ok es)) hes
  | error failure => rfl

/-- With nothing more waived, what was remembered does not show in the end of a task. -/
theorem related_attempt_self (hs : s.resolver.Blind P) (hroot : s.root.Coherent) (visible : Filter)
    (d : Option Dependency) : Related (Linked P fresh) (s.attempt visible d) (s.attempt visible d) Eq := by
  have h : Related (Linked P fresh) (s.attempt visible d) ((s.waiving []).attempt visible d) _ :=
    related_attempt hs hroot visible d
  rw [waiving_nil] at h
  refine h.mono ?_
  rintro ⟨d', r⟩ _ rfl
  have hsilence : s.silence [] = id := funext s.silence_nil
  unfold TaskEnd.mapRequests
  rw [hsilence, List.map_id_fun]
  cases r <;> rfl

/-- All tasks, one after the other: the map of the second run is that of the first, silenced. -/
theorem related_resolutionMap (hs : s.resolver.Blind P) (hroot : s.root.Coherent) (visible : Filter) :
    Related (Linked P fresh) (s.resolutionMap visible) ((s.waiving more).resolutionMap visible)
      fun m m' => m.rejudge (s.silencing more) = m' := by
  rw [resolutionMap_eq, resolutionMap_eq]
  refine .bind (.mapM fun d _ => related_attempt hs hroot visible d) fun ends ends' hends => ?_
  rw [← List.forall₂_map_left_iff, List.forall₂_eq_eq_eq] at hends
  rw [← hends]
  exact .ofExcept (alike_collect _ ends)

end Tasks

end Setting

end VersionAudit
