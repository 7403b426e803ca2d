import VersionAudit.Proofs.Analysis.Run
import VersionAudit.Proofs.DepsDev.Answers
import VersionAudit.Proofs.Step.Notes

/-!
# The notes of an analysis

An analysis tells about its progress, and whatever it cannot read it notes as the engine. It never raises an alarm, a
note of a command that something is wrong: that is left to the commands.

1. `Note.isAlarm`, `Resolver.Discreet`.
2. `adds_task`: the notes of a task are those of the engine.
3. `adds_analyze`: an analysis raises no alarm.
4. `DepsDev.discreet_resolver`: the resolver that asks the package service is discreet.
-/

namespace VersionAudit

open Step (Adds)

variable {σ : Type}

/-- Whether the note is an error that a command reports. -/
def Note.isAlarm (n : Note) : Bool :=
  n.speaker = .command && n.level = .error

/-- The note is one of the engine. -/
def Note.IsEngine (n : Note) : Prop :=
  n.speaker = .engine

theorem Note.IsEngine.isAlarm {n : Note} (h : n.IsEngine) : n.isAlarm = false := by
  unfold Note.isAlarm
  rw [h]
  rfl

/-- The resolver writes its notes as a part of the engine. -/
structure Resolver.Discreet (r : Resolver σ) : Prop where
  project : ∀ p f, Adds Note.IsEngine (r.project p f)
  node : ∀ n f, Adds Note.IsEngine (r.node n f)
  versions : ∀ a, Adds Note.IsEngine (r.versions a)

/-- Making an outcome a map only adds the engine's notes, about what stays unresolved. -/
theorem Outcome.adds_toMap (policy : RecoveryPolicy) (f : Filter) (o : Outcome) :
    Adds Note.IsEngine (o.toMap policy f : Step σ DependencyMap) := by
  unfold toMap
  dsimp only
  refine .bind .ofExcept fun _ => .bind ?_ fun _ => .pure
  unfold accept
  split
  · exact .pure
  · split
    · exact .note rfl
    · exact .fail

namespace Setting

/-! ## Tasks -/

variable {s : Setting σ}

theorem adds_strategyFor (n : Identity) : Adds Note.IsEngine (strategyFor (σ := σ) n) :=
  .of_same fun _ => rfl

/-- Judging one node adds the engine's notes only. -/
theorem adds_inConflict (n : Node) (name : Identity) (expected resolved : Version) :
    Adds Note.IsEngine (s.inConflict n name expected resolved) := by
  unfold inConflict
  split
  · exact .pure
  · exact .bind (adds_strategyFor name) fun _ => .pure

/-- So does the check that a dependency may be seen. -/
theorem adds_checkVisible (visible : Filter) (d : Dependency) (n : Node) :
    Adds Note.IsEngine (checkVisible (σ := σ) visible d n) := by
  unfold checkVisible
  split
  · exact .pure
  · exact .fail

variable (hs : s.resolver.Discreet)

include hs

/-- The part of the requests that the project makes itself adds the engine's notes only. -/
theorem adds_directPart (visible : Filter) (d : Dependency) : Adds Note.IsEngine (s.directPart visible d) := by
  have hrequest : ∀ n, Adds Note.IsEngine (s.directRequest d n) := by
    intro n
    unfold directRequest
    refine .bind (.within (hs.versions _)) fun versions => ?_
    dsimp only
    split
    · exact .fail
    · exact .bind (adds_inConflict _ _ _ _) fun _ => .pure
  unfold directPart
  split
  · exact .pure
  · refine .bind (adds_checkVisible visible d _) fun _ => ?_
    exact .bind (hrequest _) fun _ => .pure

/-- So does the part below a dependency, also where the subtree cannot be resolved and the part is skipped. -/
theorem adds_transitivePart (d : Dependency) (n : Node) : Adds Note.IsEngine (s.transitivePart d n) := by
  have hrequest : ∀ requester n, Adds Note.IsEngine (s.transitiveRequest requester n) := by
    intro requester n
    unfold transitiveRequest
    dsimp only
    split
    · exact .pure
    · exact .bind (adds_inConflict _ _ _ _) fun _ => .pure
  have hrequests : ∀ f, Adds Note.IsEngine (s.transitiveRequests d n f) := by
    intro f
    unfold transitiveRequests
    refine .bind (.within (.bind (hs.node n _) fun o => o.adds_toMap _ _)) fun map => ?_
    exact .bind .ofExcept fun nodes => .filterMapM fun m _ => hrequest _ m
  unfold transitivePart
  refine .bind .ofExcept fun f => ?_
  -- a failure below the dependency is caught here, with a note, or goes on as it is
  refine .bind (.outcome (hrequests f)) fun r => ?_
  split
  · exact .pure
  · split
    · split
      · exact .bind (.note rfl) fun _ => .pure
      · exact .pure
    · exact .fail

/-- Each task adds the engine's notes only. -/
theorem adds_task (visible : Filter) (d : Option Dependency) : Adds Note.IsEngine (s.task visible d) := by
  cases d with
  | none => exact .fail
  | some d =>
    show Adds Note.IsEngine (s.contribution visible d)
    unfold contribution
    refine .bind (adds_directPart hs visible d) fun direct => ?_
    split
    · exact .pure
    · refine .bind (adds_checkVisible visible d _) fun _ => ?_
      split
      · exact .pure
      · exact .bind (adds_transitivePart hs d _) fun _ => .pure

theorem adds_resolutionMap (visible : Filter) : Adds Note.IsEngine (s.resolutionMap visible) := by
  rw [resolutionMap_eq]
  refine .bind (.mapM fun d _ => ?_) fun _ => .ofExcept
  exact .bind (.outcome (adds_task hs visible d)) fun _ => .pure

end Setting

/-! ## An analysis -/

/-- A progress note is no alarm. -/
theorem adds_progress (c : Configuration) (text : String) :
    Adds (·.isAlarm = false) (progress c text : Step σ Unit) := by
  unfold progress
  split
  · exact .pure
  · exact .note rfl

/-- An analysis raises no alarm. -/
theorem adds_analyze {resolver : Resolver σ} (hs : resolver.Discreet) (registry : Registry) (c : Configuration)
    (reactor : List Project) (project : Project) :
    Adds (·.isAlarm = false) (analyze resolver registry c reactor project) := by
  unfold analyze
  split
  · exact .fail
  · split
    · exact .bind (adds_progress c _) fun _ => .pure
    · split
      · exact .bind (adds_progress c _) fun _ => .pure
      · refine .bind .ofExcept fun assignment => .bind .ofExcept fun visible => ?_
        refine .bind (.mono (.bind (hs.project _ _) fun o => o.adds_toMap _ _) fun _ hn => hn.isAlarm) fun root => ?_
        -- the tasks are run on a bench, and what they have noted is put back
        intro l
        let setting : Setting σ := { resolver, configuration := c, project, reactor, root }
        obtain ⟨added, hnotes, hadded⟩ := Setting.adds_resolutionMap (s := setting) hs visible (l.bench assignment)
        refine ⟨added, ?_, fun n hn => (hadded n hn).isAlarm⟩
        rw [Step.run_bind, Step.run_get]
        dsimp only
        rw [Step.run_bind, Step.run_set]
        dsimp only
        rw [Step.run_bind, Step.run_ofExcept]
        refine Eq.trans ?_ hnotes
        split
        · rename_i hrun
          rw [Step.run_pure, ← (Prod.mk.inj hrun).2]
          rfl
        · rename_i hrun
          rw [← (Prod.mk.inj hrun).2]
          rfl

/-! ## The resolver -/

namespace DepsDev

variable {t : Transport σ} {timeout : Int}

/-- Asking the service notes its failures as the engine does. -/
theorem adds_ask (address subject : String) : Adds Note.IsEngine (ask t timeout address subject) := by
  unfold ask
  refine .bind .read fun s => ?_
  dsimp only
  refine .bind .write fun _ => ?_
  split
  · exact .pure
  · exact .bind (.note rfl) fun _ => .pure

/-- Fetching a graph adds the engine's notes only. -/
theorem adds_fetchGraph (a : Artifact) : Adds Note.IsEngine (fetchGraph t timeout a) := by
  unfold fetchGraph
  refine .bind .read fun memory => ?_
  split
  · exact .pure
  · -- what is kept of the answer is written after the notes
    have hkeep : ∀ answer : Option PackageGraph, Adds Note.IsEngine (keepGraph (σ := σ) a answer) := by
      intro answer
      have hstore := Adds.bind (T := Note.IsEngine) (Adds.read (σ := Memory σ)) fun memory =>
        Adds.bind (.write (s := { memory with graphs := memory.graphs.store (a.group, a.name, a.version) answer }))
          fun _ => Adds.pure (a := (((memory.graphs.store (a.group, a.name, a.version) answer).kept?
            (a.group, a.name, a.version)).getD answer))
      cases answer with
      | none => exact .bind (.note rfl) fun _ => hstore
      | some graph => exact hstore
    refine .bind (.within (adds_ask _ _)) fun body => ?_
    cases body with
    | none => exact hkeep none
    | some j => exact .bind .ofExcept hkeep

/-- So does listing the published versions. -/
theorem adds_versions (a : Artifact) : Adds Note.IsEngine (versions t timeout a) := by
  have hfetch : ∀ group name, Adds Note.IsEngine (fetchVersions t timeout group name) := by
    intro group name
    unfold fetchVersions
    refine .bind .read fun memory => ?_
    dsimp only
    split
    · exact .pure
    -- the list is asked for only if none is kept, and none is kept of a failed answer
    · refine .bind (.within ?_) fun listed? => .bind .read fun memory => .bind .write fun _ => .pure
      unfold versionsAnswer?
      refine .bind (adds_ask _ _) fun body => ?_
      split
      · exact .pure
      · exact .pure
      · exact .bind .ofExcept fun _ => .pure
  unfold versions
  split
  · exact .fail
  · split
    · exact .pure
    · exact .bind (hfetch _ _) fun _ => .pure

/-- Declaring a dependency adds the engine's notes only, about a version that is missing or a graph that is. -/
theorem adds_declare (p : Project) (f : Filter) (draft : Draft) (d : Dependency) :
    Adds Note.IsEngine (declare t timeout p f draft d) := by
  have hchoose : Adds Note.IsEngine (chooseVersion t timeout d) := by
    unfold chooseVersion
    split
    · exact .pure
    · split
      · exact .bind (.note rfl) fun _ => .pure
      · split
        · exact .pure
        · exact .bind (adds_versions _) fun _ => .pure
  unfold declare
  dsimp only
  split
  · exact .pure
  · refine .bind hchoose fun version? => ?_
    split
    · exact .pure
    · split
      · exact .pure
      · refine .bind (adds_fetchGraph _) fun graph? => ?_
        split
        · exact .pure
        · split
          · exact .pure
          · exact .pure

/-- The resolver over the service adds nothing but the engine's notes, whatever it is asked. -/
theorem discreet_resolver (t : Transport σ) (timeout : Int) : (resolver t timeout).Discreet where
  project p f := by
    show Adds Note.IsEngine (resolveProject t timeout p f)
    unfold resolveProject
    refine .bind (.foldlM fun d _ draft => adds_declare p f draft d) fun draft => ?_
    exact .bind .ofExcept fun m => .pure
  node n _ := by
    show Adds Note.IsEngine (resolveNode t timeout n)
    unfold resolveNode
    refine .bind (adds_fetchGraph _) fun graph? => ?_
    split
    · exact .fail
    · split
      · exact .fail
      · exact .bind .ofExcept fun m => .pure
  versions := adds_versions

end DepsDev

end VersionAudit
