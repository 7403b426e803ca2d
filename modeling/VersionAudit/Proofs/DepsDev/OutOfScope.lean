import VersionAudit.Proofs.DepsDev.Declaring
import VersionAudit.Proofs.DepsDev.ProjectGraph
import VersionAudit.Proofs.DepsDev.Service

/-!
# Dependencies that the filter rejects

A declared dependency that the filter rejects does not become a node. But its version is chosen before the filter is
asked, and if none is found, it counts as unresolved all the same. So the outcome for a project is compared with the one
for the project without such dependencies.

1. `Silent`: a version is found for each of them, or it repeats a dependency that stands in the graph.
2. `Draft.Reports`: a draft knows the keys of what stands in the graph, and holds only admitted dependencies as
   unresolved if all are silent, and else not.
3. `related_declareAll`: silent dependencies change nothing. `exists_declareAll_shown`: others change only what is
   unresolved and the cause of it.
4. `resolveProject_within`: both together.
-/

namespace VersionAudit

/-- The project without the declared dependencies that a filter rejects. -/
def Project.within (f : Filter) (p : Project) : Project :=
  { p with dependencies := p.dependencies.filter fun d => f.admits (DepsDev.declaredNode d) }

namespace DepsDev

open Step (Ensures Related)

variable {σ : Type}

section Silence

variable (t : Transport σ) (timeout : Int) (l : Ledger (Memory σ)) (f : Filter)

/-- A version is found for a dependency. -/
def Versioned (d : Dependency) : Prop :=
  ∃ version, ((chooseVersion t timeout d).run l).1 = .ok (some version)

/-- One of some dependencies has a key, and it is one that the filter admits and for which a version is found. -/
def Placed (done : List Dependency) (key : DeclaredKey) : Prop :=
  ∃ d ∈ done, f.admits (declaredNode d) = true ∧ Versioned t timeout l d ∧ declaredKey d.artifact = key

/-- For each dependency that the filter rejects a version is found, or one with the same key is placed before it. -/
def Silent (ds : List Dependency) : Prop :=
  ∀ done d, done ++ [d] <+: ds → f.admits (declaredNode d) = false →
    Versioned t timeout l d ∨ Placed t timeout l f done (declaredKey d.artifact)

variable {t timeout l f}

/-- One more dependency is placed if it is admitted and a version is found for it. -/
theorem placed_concat {done : List Dependency} {d : Dependency} {key : DeclaredKey} :
    Placed t timeout l f (done ++ [d]) key ↔ Placed t timeout l f done key ∨
      (f.admits (declaredNode d) = true ∧ Versioned t timeout l d ∧ declaredKey d.artifact = key) := by
  unfold Placed
  simp [or_and_right, exists_or]

/-- One more dependency must be silent itself if the filter rejects it. -/
theorem silent_concat {ds : List Dependency} {d : Dependency} :
    Silent t timeout l f (ds ++ [d]) ↔ Silent t timeout l f ds ∧ (f.admits (declaredNode d) = false →
      Versioned t timeout l d ∨ Placed t timeout l f ds (declaredKey d.artifact)) := by
  constructor
  · intro h
    exact ⟨fun done e hbegins => h done e (hbegins.trans (List.prefix_append ..)), h ds d List.prefix_rfl⟩
  · rintro ⟨h, hlast⟩ done e hbegins
    rcases List.prefix_concat_iff.1 hbegins with heq | hbegins
    · obtain ⟨rfl, hsame⟩ := List.append_inj' heq rfl
      obtain rfl := List.singleton_inj.1 hsame
      exact hlast
    · exact h done e hbegins

end Silence

section Steady

variable {t : Transport σ} {timeout : Int} {l₀ : Ledger (Memory σ)} {p : Project} {f : Filter}

/-! ## What a draft reports -/

/-- A draft knows the keys of the dependencies placed so far. What it holds as unresolved is admitted just if the
rejected ones among all of them are silent. -/
structure Draft.Reports (t : Transport σ) (timeout : Int) (l₀ : Ledger (Memory σ)) (f : Filter) (done : List Dependency)
    (draft : Draft) : Prop where
  declared : ∀ key, key ∈ draft.declared ↔ Placed t timeout l₀ f done key
  silent : (∀ d ∈ draft.unresolved, f.admits (declaredNode d) = true) ↔ Silent t timeout l₀ f done

theorem reports_emptyDraft (p : Project) : (emptyDraft p).Reports t timeout l₀ f [] where
  declared key := by simp [emptyDraft, Placed]
  silent := by
    refine iff_of_true (fun d hd => by cases hd) fun done d hbegins => ?_
    exact absurd (List.prefix_nil.1 hbegins) (by simp)

/-- The report goes on by what became of one more dependency. -/
theorem Draft.Reports.after {done : List Dependency} {d : Dependency} {draft draft' : Draft}
    (h : draft.Reports t timeout l₀ f done)
    (hafter : draft.After p f (fun version? => ((chooseVersion t timeout d).run l₀).1 = .ok version?) d draft') :
    draft'.Reports t timeout l₀ f (done ++ [d]) := by
  -- each case of what can become of a dependency says what it adds to the report
  cases hafter with
  | again known =>
    refine ⟨fun key => ?_, ?_⟩
    · rw [h.declared, placed_concat, or_iff_left_of_imp]
      rintro ⟨-, -, rfl⟩
      exact (h.declared _).1 known
    · rw [h.silent, silent_concat, and_iff_left]
      exact fun _ => .inr ((h.declared _).1 known)
  | unversioned message new chosen =>
    -- nothing else tells whether it was silent: it is unresolved, so the filter decides
    have hnone : ¬ Versioned t timeout l₀ d := by
      rintro ⟨version, hversion⟩
      cases chosen.symm.trans hversion
    refine ⟨fun key => ?_, ?_⟩
    · show key ∈ draft.declared ↔ _
      rw [h.declared, placed_concat, or_iff_left]
      exact fun hplaced => hnone hplaced.2.1
    · show (∀ e ∈ draft.unresolved ++ [d], _) ↔ _
      rw [silent_concat, ← h.silent, ← h.declared]
      simp [or_imp, forall_and, hnone, new]
  | hidden version chosen hidden =>
    -- the filter was asked about the chosen version, but looks at none
    rw [admits_inVersion] at hidden
    refine ⟨fun key => ?_, ?_⟩
    · rw [h.declared, placed_concat, or_iff_left]
      rintro ⟨hadmits, -, -⟩
      rw [hidden] at hadmits
      cases hadmits
    · rw [h.silent, silent_concat, and_iff_left]
      exact fun _ => .inl ⟨version, chosen⟩
  | placed version graph? chosen admitted =>
    have hadmits := admitted
    rw [admits_inVersion] at hadmits
    have hdeclared : ∀ key, key ∈ declaredKey d.artifact :: draft.declared ↔
        Placed t timeout l₀ f (done ++ [d]) key := by
      intro key
      rw [List.mem_cons, h.declared, placed_concat, or_comm]
      refine or_congr_right ⟨?_, fun hplaced => hplaced.2.2.symm⟩
      rintro rfl
      exact ⟨hadmits, ⟨version, chosen⟩, rfl⟩
    have hsilent : (∀ e ∈ draft.unresolved, f.admits (declaredNode e) = true) ↔
        Silent t timeout l₀ f (done ++ [d]) := by
      rw [h.silent, silent_concat, and_iff_left]
      rw [hadmits]
      exact fun hfalse => by cases hfalse
    cases graph? with
    | none =>
      refine ⟨hdeclared, ?_⟩
      show (∀ e ∈ draft.unresolved ++ [inVersion d version], _) ↔ _
      rw [← hsilent]
      simp [or_imp, forall_and, admitted]
    | some graph => exact ⟨hdeclared, hsilent⟩

/-! ## Declaring on a steady service -/

section Declaring

variable (ht : t.Steady) (hl₀ : l₀.state.Faithful t timeout)

include ht

theorem ensures_fetchGraph_faithful (a : Artifact) :
    Ensures (Memory.Faithful t timeout) (fetchGraph t timeout a) fun _ => True :=
  fun l hl => ⟨(run_fetchGraph ht hl a l.state.transport).2, fun _ _ => trivial⟩

include hl₀

/-- What is chosen for a dependency is chosen for it whatever was asked before. -/
theorem ensures_chooseVersion_again (d : Dependency) : Ensures (Memory.Faithful t timeout) (chooseVersion t timeout d)
    fun version? => ((chooseVersion t timeout d).run l₀).1 = .ok version? := by
  intro l hl
  obtain ⟨⟨hl', -⟩, halike⟩ := related_chooseVersion ht d l l₀ ⟨hl, hl₀⟩
  refine ⟨hl', fun version? hversion => ?_⟩
  rw [← halike.eq]
  exact hversion

/-- Declaring keeps the memory faithful, so that a version is chosen as it was before. -/
theorem ensures_declare_faithful (d : Dependency) (draft : Draft) :
    Ensures (Memory.Faithful t timeout) (declare t timeout p f draft d)
      (draft.After p f (fun version? => ((chooseVersion t timeout d).run l₀).1 = .ok version?) d) :=
  ensures_declare (ensures_fetchGraph_faithful ht) (ensures_chooseVersion_again ht hl₀ d) draft

/-- Which dependencies are unresolved in the outcome for a project. -/
theorem ensures_silent_iff : Ensures (Memory.Faithful t timeout) (resolveProject t timeout p f) fun o =>
    ((∀ d ∈ o.unresolved, f.admits (declaredNode d) = true) ↔ Silent t timeout l₀ f p.dependencies) := by
  refine (ensures_resolveProject_of (S := Draft.Reports t timeout l₀ f) (ensures_fetchGraph_faithful ht)
    (fun d _ => ensures_chooseVersion_again ht hl₀ d) (reports_emptyDraft p) ?_).mono ?_
  · exact fun done d _ draft draft' h hafter => h.after hafter
  · rintro o ⟨draft, m, hreports, -, rfl⟩
    exact hreports.silent

/-- A rejected dependency leaves the draft as it is if it was declared before or a version is found for it. -/
theorem exists_run_declare_hidden {d : Dependency} {draft : Draft} (hhidden : f.admits (declaredNode d) = false)
    (h : declaredKey d.artifact ∈ draft.declared ∨ Versioned t timeout l₀ d) {l : Ledger (Memory σ)}
    (hl : l.state.Faithful t timeout) :
    ∃ l', (declare t timeout p f draft d).run l = (.ok draft, l') ∧ l'.state.Faithful t timeout := by
  unfold declare
  dsimp only
  -- a key that was declared before is passed over, whatever the filter would say
  by_cases hold : draft.declared.contains (d.artifact.group, d.artifact.name, d.artifact.kind, d.artifact.classifier)
      = true
  · rw [if_pos hold]
    exact ⟨l, rfl, hl⟩
  rw [if_neg hold]
  obtain ⟨version, hversion⟩ := h.resolve_left fun hknown => hold (List.contains_iff_mem.2 hknown)
  obtain ⟨⟨hl', -⟩, halike⟩ := related_chooseVersion ht d l l₀ ⟨hl, hl₀⟩
  have hchoose : (chooseVersion t timeout d).run l = (.ok (some version), ((chooseVersion t timeout d).run l).2) :=
    Prod.ext (halike.eq.trans hversion) rfl
  refine ⟨((chooseVersion t timeout d).run l).2, ?_, hl'⟩
  rw [Step.run_bind, hchoose]
  have hrejects : (!f.admits (declaredNode (inVersion d version))) = true := by
    rw [admits_inVersion, hhidden]
    rfl
  unfold declaredNode inVersion at hrejects
  simp only [hrejects, if_true]
  rfl

end Declaring

/-! ## Two runs -/

/-- Declares a dependency unless the filter rejects it as it stands. -/
def declareAdmitted (t : Transport σ) (timeout : Int) (p : Project) (f : Filter) (draft : Draft) (d : Dependency) :
    Step (Memory σ) Draft :=
  if f.admits (declaredNode d) then declare t timeout p f draft d else pure draft

/-- One draft is the other one without the dependencies that the filter rejects. -/
structure Draft.Shown (f : Filter) (draft shown : Draft) : Prop where
  merge : shown.merge = draft.merge
  declared : shown.declared = draft.declared
  unresolved : shown.unresolved = draft.unresolved.filter fun d => f.admits (declaredNode d)
  cause : (∀ d ∈ draft.unresolved, f.admits (declaredNode d) = true) → shown.cause = draft.cause

/-- What both drafts have in common may change. -/
theorem Draft.Shown.update {draft shown : Draft} (h : draft.Shown f shown) (m : Merge) (keys : List DeclaredKey) :
    Draft.Shown f { draft with merge := m, declared := keys } { shown with merge := m, declared := keys } where
  merge := rfl
  declared := rfl
  unresolved := h.unresolved
  cause := h.cause

/-- An admitted dependency that is lacking shows. -/
theorem Draft.Shown.lack {draft shown : Draft} (h : draft.Shown f shown) {d : Dependency}
    (hadmits : f.admits (declaredNode d) = true) (message : String) :
    (draft.lack d message).Shown f (shown.lack d message) where
  merge := h.merge
  declared := h.declared
  unresolved := by
    show shown.unresolved ++ [d] = (draft.unresolved ++ [d]).filter _
    rw [h.unresolved, List.filter_append, List.filter_singleton, hadmits]
    rfl
  cause _ := rfl

/-- Whatever becomes of a rejected dependency does not show. -/
theorem Draft.Shown.after {V : Option String → Prop} {d : Dependency} {draft shown draft' : Draft}
    (h : draft.Shown f shown) (hhidden : f.admits (declaredNode d) = false) (hafter : draft.After p f V d draft') :
    draft'.Shown f shown := by
  cases hafter with
  | again | hidden => exact h
  -- a rejected dependency without a version is lacking, which the filter drops from the report
  | unversioned message new chosen =>
    refine ⟨h.merge, h.declared, ?_, fun hall => ?_⟩
    · show shown.unresolved = (draft.unresolved ++ [d]).filter _
      rw [h.unresolved, List.filter_append, List.filter_singleton, hhidden]
      exact (List.append_nil _).symm
    · have hadmits := hall d (List.mem_append_right _ (List.mem_singleton_self d))
      rw [hhidden] at hadmits
      cases hadmits
  | placed version graph? chosen admitted =>
    rw [admits_inVersion, hhidden] at admitted
    cases admitted

/-- An admitted dependency is declared in the same way whatever does not show. -/
theorem related_declare_shown (ht : t.Steady) {d : Dependency} (hadmits : f.admits (declaredNode d) = true)
    {draft shown : Draft} (h : draft.Shown f shown) :
    Related (BothFaithful t timeout) (declare t timeout p f draft d) (declare t timeout p f shown d)
      (Draft.Shown f) := by
  unfold declare
  dsimp only
  -- the two drafts differ in what is lacking only, which decides about nothing here
  rw [h.declared, h.merge]
  split
  · exact .pure h
  · refine .bind (related_chooseVersion ht d) ?_
    rintro version? _ rfl
    split
    · exact .pure (h.lack hadmits _)
    · rename_i version
      split
      · exact .pure h
      · refine .bind (related_fetchGraph ht _) ?_
        rintro graph? _ rfl
        split
        · exact .pure ((h.update _ _).lack ((admits_inVersion f d version).trans hadmits) _)
        · split
          · exact .pure (h.update _ _)
          · exact .pure (h.update _ _)

/-- What follows when all dependencies of a project are declared. -/
def Draft.outcome (draft : Draft) : Except Failure Outcome :=
  draft.merge.finish.map fun m =>
    { graph := ⟨m.nodes, 0⟩, resolved := m.resolved, unresolved := draft.unresolved, cause := draft.cause }

/-- Resolving a project declares its dependencies and then shows the outcome. -/
theorem resolveProject_eq (t : Transport σ) (timeout : Int) (p : Project) (f : Filter) :
    resolveProject t timeout p f =
      p.dependencies.foldlM (declare t timeout p f) (emptyDraft p) >>= fun draft => Step.ofExcept draft.outcome := by
  refine congrArg (p.dependencies.foldlM (declare t timeout p f) (emptyDraft p) >>= ·) (funext fun draft => ?_)
  unfold Draft.outcome
  cases draft.merge.finish <;> rfl

/-- Without the rejected dependencies only the admitted ones are declared. -/
theorem resolveProject_within_eq (t : Transport σ) (timeout : Int) (p : Project) (f : Filter) :
    resolveProject t timeout (p.within f) f =
      p.dependencies.foldlM (declareAdmitted t timeout p f) (emptyDraft p) >>= fun draft =>
        Step.ofExcept draft.outcome := by
  rw [resolveProject_eq]
  refine congrArg (· >>= _) ?_
  exact List.foldlM_filter

/-- In the outcome the rejected dependencies show just if one of them is unresolved. -/
theorem Draft.Shown.exists_outcome {draft shown : Draft} (h : draft.Shown f shown) {o : Outcome}
    (ho : draft.outcome = .ok o) :
    ∃ o', shown.outcome = .ok o' ∧ o'.graph = o.graph ∧ o'.resolved = o.resolved ∧
      o'.unresolved = o.unresolved.filter (fun d => f.admits (declaredNode d)) ∧
      (o' = o ↔ ∀ d ∈ o.unresolved, f.admits (declaredNode d) = true) := by
  unfold Draft.outcome at ho ⊢
  rw [h.merge]
  cases hfinish : draft.merge.finish with
  | error failure =>
    rw [hfinish] at ho
    cases ho
  | ok m =>
    rw [hfinish] at ho
    obtain rfl := Except.ok.inj ho
    -- the graphs are the same; what is lacking is compared by its list, and the cause by whether all of it is admitted
    refine ⟨_, rfl, rfl, rfl, h.unresolved, fun hsame => ?_, fun hall => ?_⟩
    · have hunresolved : shown.unresolved = draft.unresolved := congrArg Outcome.unresolved hsame
      rw [h.unresolved] at hunresolved
      exact List.filter_eq_self.1 hunresolved
    · have hunresolved : shown.unresolved = draft.unresolved := h.unresolved.trans (List.filter_eq_self.2 hall)
      rw [hunresolved, h.cause hall]

section Runs

variable (ht : t.Steady)

include ht

/-- Silent dependencies change nothing. -/
theorem related_declareAll (hl₀ : l₀.state.Faithful t timeout) (h : Silent t timeout l₀ f p.dependencies) :
    Related (BothFaithful t timeout) (p.dependencies.foldlM (declare t timeout p f) (emptyDraft p))
      (p.dependencies.foldlM (declareAdmitted t timeout p f) (emptyDraft p)) Eq := by
  refine (Related.foldlM_upTo (S := fun done a b => a = b ∧ a.Reports t timeout l₀ f done) ?_
    ⟨rfl, reports_emptyDraft p⟩).mono fun a b hab => hab.1
  rintro done d hbegins draft _ ⟨rfl, hreports⟩
  have hafter : ∀ l k draft' l', BothFaithful t timeout l k → (declare t timeout p f draft d).run l = (.ok draft', l') →
      draft'.Reports t timeout l₀ f (done ++ [d]) := by
    rintro l k draft' l' ⟨hl, -⟩ hrun
    exact hreports.after ((ensures_declare_faithful ht hl₀ d draft l hl).2 draft' (congrArg Prod.fst hrun))
  -- a rejected dependency is skipped in the second run, and finds nothing to do in the first one
  unfold declareAdmitted
  split
  · exact (related_declare ht p f draft d).and_of_run hafter
  · rename_i hhidden
    rw [Bool.not_eq_true] at hhidden
    have hsilent := h done d hbegins hhidden
    rw [← hreports.declared, or_comm] at hsilent
    rintro l k ⟨hl, hk⟩
    obtain ⟨l', hrun, hl'⟩ := exists_run_declare_hidden ht hl₀ (p := p) hhidden hsilent hl
    rw [hrun]
    exact ⟨⟨hl', hk⟩, .ok ⟨rfl, hafter l k draft l' ⟨hl, hk⟩ hrun⟩⟩

/-- Whatever the rejected dependencies are, the draft without them shows the same. -/
theorem exists_declareAll_shown {l k l' : Ledger (Memory σ)} (hlk : BothFaithful t timeout l k) {draft : Draft}
    (hrun : (p.dependencies.foldlM (declare t timeout p f) (emptyDraft p)).run l = (.ok draft, l')) :
    ∃ shown k', (p.dependencies.foldlM (declareAdmitted t timeout p f) (emptyDraft p)).run k = (.ok shown, k') ∧
      draft.Shown f shown := by
  have hstep : ∀ d ∈ p.dependencies, ∀ draft l shown k draft' l', (BothFaithful t timeout l k ∧ draft.Shown f shown) →
      (declare t timeout p f draft d).run l = (.ok draft', l') →
      ∃ shown' k', (declareAdmitted t timeout p f shown d).run k = (.ok shown', k') ∧
        (BothFaithful t timeout l' k' ∧ draft'.Shown f shown') := by
    rintro d - draft l shown k draft' l' ⟨hlk, hshown⟩ hrun
    unfold declareAdmitted
    -- an admitted dependency is declared in both runs, a rejected one in the first run only
    split
    · rename_i hadmits
      obtain ⟨hleft, halike⟩ := related_declare_shown (p := p) ht hadmits hshown l k hlk
      rw [hrun] at hleft halike
      rcases hother : (declare t timeout p f shown d).run k with ⟨r, k'⟩
      rw [hother] at hleft halike
      cases halike with
      | ok h => exact ⟨_, k', rfl, hleft, h⟩
    · rename_i hhidden
      rw [Bool.not_eq_true] at hhidden
      obtain ⟨hl', hafter⟩ := ensures_declare_faithful (p := p) (f := f) ht hlk.1 d draft l hlk.1
      rw [hrun] at hl' hafter
      exact ⟨shown, k, rfl, ⟨hl', hlk.2⟩, hshown.after hhidden (hafter draft' rfl)⟩
  have hstart : (emptyDraft p).Shown f (emptyDraft p) := ⟨rfl, rfl, rfl, fun _ => rfl⟩
  obtain ⟨shown, k', hshown, -, h⟩ := Step.exists_run_foldlM
    (R := fun draft l shown k => BothFaithful t timeout l k ∧ draft.Shown f shown) hstep ⟨hlk, hstart⟩ hrun
  exact ⟨shown, k', hshown, h⟩

/-- If the dependencies that a filter rejects are silent, a project is resolved as it is without them, also if that
fails. If it is resolved at all, it is without them, too. The graph is the same then, and so is what is resolved.
Unresolved without them are those that the filter admits, and the outcomes are equal just if the rejected ones are
silent. -/
theorem resolveProject_within {l k : Ledger (Memory σ)} (hlk : BothFaithful t timeout l k) :
    (Silent t timeout l f p.dependencies →
      ((resolveProject t timeout p f).run l).1 = ((resolveProject t timeout (p.within f) f).run k).1) ∧
    ∀ o, ((resolveProject t timeout p f).run l).1 = .ok o →
      ∃ o', ((resolveProject t timeout (p.within f) f).run k).1 = .ok o' ∧ o'.graph = o.graph ∧
        o'.resolved = o.resolved ∧ o'.unresolved = o.unresolved.filter (fun d => f.admits (declaredNode d)) ∧
        (o' = o ↔ Silent t timeout l f p.dependencies) := by
  constructor
  -- if nothing rejected shows, both runs are related turn by turn
  · intro hsilent
    rw [resolveProject_eq, resolveProject_within_eq]
    refine ((Related.bind (related_declareAll ht hlk.1 hsilent) ?_) l k hlk).2.eq
    rintro draft _ rfl
    exact .ofExcept (Step.alike_self _)
  -- a resolved project has gone through all dependencies, so that it can be said which of them were silent
  · intro o ho
    have hsilent := (ensures_silent_iff ht hlk.1 l hlk.1).2 o ho
    rw [resolveProject_eq] at ho
    obtain ⟨draft, l', hdeclare, houtcome⟩ := Step.run_bind_ok_iff.1 (Prod.ext ho rfl)
    rw [Step.run_ofExcept] at houtcome
    obtain ⟨shown, k', hwithin, hshown⟩ := exists_declareAll_shown ht hlk hdeclare
    obtain ⟨o', ho', hgraph, hresolved, hunresolved, hsame⟩ := hshown.exists_outcome (congrArg Prod.fst houtcome)
    refine ⟨o', ?_, hgraph, hresolved, hunresolved, hsame.trans hsilent⟩
    rw [resolveProject_within_eq, Step.run_bind, hwithin]
    exact (congrArg Prod.fst (Step.run_ofExcept _ _)).trans ho'

end Runs

end Steady

/-! ## A range without a published version -/

namespace Unpublished

open Crossing (ledger requestFor)

/-- What a build in the scope `compile` sees. -/
def compileScopes : Filter :=
  .scopes ["compile", "provided", "system"]

/-- The only published version of `t`. -/
def published : Json :=
  .object [("versions", .array [.object [("versionKey", .object [("version", .string "2.0")])]])]

/-- A service that knows the versions of `t` besides two graphs. -/
def service : Transport Unit :=
  ⟨fun q s => if q.address = packageAddress "g" "t" then (.answer 200 published, s) else Crossing.service.send q s⟩

def forTests (range : String) : Dependency :=
  { artifact := { group := "g", name := "t", version := range }, scope := "test" }

/-- The project declares `d`, and for its tests `t` in a range. -/
def projectWith (range : String) : Project :=
  { group := "com.example", name := "app", version := "1", dependencies := [requestFor "d" [], forTests range] }

theorem steady_service : service.Steady :=
  fun _ _ _ => rfl

theorem faithful_ledger : BothFaithful service 30 ledger ledger :=
  ⟨faithful_fresh (), faithful_fresh ()⟩

/-- What is unresolved if a project is resolved. -/
def unresolved? (p : Project) : Option (List Dependency) :=
  ((resolveProject service 30 p compileScopes).run ledger).1.toOption.map (·.unresolved)

/-- A published version of `t` is in the range, and `t` does not show. -/
theorem resolveProject_within_published :
    service.Steady ∧ BothFaithful service 30 ledger ledger ∧
      ((projectWith "[2,3)").within compileScopes).dependencies = [requestFor "d" []] ∧
      ∃ o, ((resolveProject service 30 (projectWith "[2,3)") compileScopes).run ledger).1 = .ok o ∧
        ((resolveProject service 30 ((projectWith "[2,3)").within compileScopes) compileScopes).run ledger).1 =
          .ok o := by
  obtain ⟨hsame, -⟩ :=
    resolveProject_within (p := projectWith "[2,3)") (f := compileScopes) steady_service faithful_ledger
  have hchosen : ((chooseVersion service 30 (forTests "[2,3)")).run ledger).1.toOption = some (some "2.0") := by
    decide +kernel
  have hsilent : Silent service 30 ledger compileScopes (projectWith "[2,3)").dependencies := by
    intro done d hbegins _
    have hd : d ∈ [requestFor "d" [], forTests "[2,3)"] := hbegins.subset (by simp)
    rcases List.mem_pair.1 hd with rfl | rfl
    · exact .inl ⟨"1", rfl⟩
    · exact .inl ⟨"2.0", Except.of_toOption hchosen⟩
  have hsome : (unresolved? (projectWith "[2,3)")).isSome = true := by decide +kernel
  unfold unresolved? at hsome
  rw [Option.isSome_map] at hsome
  obtain ⟨o, ho⟩ := Option.isSome_iff_exists.1 hsome
  have hfirst := Except.of_toOption ho
  exact ⟨steady_service, faithful_ledger, by decide +kernel, o, hfirst, (hsame hsilent).symm.trans hfirst⟩

/-- No published version of `t` is in the range, so `t` is unresolved although the filter rejects it. -/
theorem resolveProject_within_ne :
    service.Steady ∧ BothFaithful service 30 ledger ledger ∧ Filter.visibleIn "compile" = some compileScopes ∧
      ((resolveProject service 30 (projectWith "[1,2)") compileScopes).run ledger).1 ≠
        ((resolveProject service 30 ((projectWith "[1,2)").within compileScopes) compileScopes).run ledger).1 := by
  refine ⟨steady_service, faithful_ledger, rfl, fun hsame => ?_⟩
  have hall : unresolved? (projectWith "[1,2)") = some [forTests "[1,2)"] := by decide +kernel
  have hwithin : unresolved? ((projectWith "[1,2)").within compileScopes) = some [] := by decide +kernel
  unfold unresolved? at hall hwithin
  rw [hsame, hwithin] at hall
  cases hall

end Unpublished

end DepsDev

end VersionAudit
