import VersionAudit.Command
import VersionAudit.Proofs.Analysis.Notes
import VersionAudit.Proofs.Analysis.TaskOrder
import VersionAudit.Proofs.Analysis.Unreachable

/-!
# The verdict of a check

A check reports the entries of its projects one by one, each as serious as it is, and remembers which kinds of conflict
it has seen. The verdict is read off what it remembers, and agrees with what it has reported.

1. `CheckResult.add`: the result with the entries of one more project, and what it remembers of them.
2. `run_checkProject_ok_iff`: all that a check of one project does.
3. `Accords`: the result says what the notes say. `accords_check`: it does after a check of any projects.
4. `exists_check_showing`: the conflicts that a check remembers do not depend on what it shows.
5. `verdict_error_iff_exists_alarm`: the verdict.
-/

namespace VersionAudit

open Step (Related)

variable {σ : Type}

/-! ## Results -/

namespace CheckResult

/-- The result with the entries of one more project. -/
def add (r : CheckResult) (p : Project) (entries : List Entry) : CheckResult :=
  entries.foldl record { r with reports := r.reports ++ [(p, entries)] }

/-- A result remembers whether any entry was a conflict, direct or not. -/
theorem foldl_record (r : CheckResult) (es : List Entry) :
    es.foldl record r = { r with
      directConflicts := r.directConflicts || es.any fun e => e.hasConflict && e.direct
      transitiveConflicts := r.transitiveConflicts || es.any fun e => e.hasConflict && !e.direct } := by
  induction es generalizing r with
  | nil => simp
  | cons e es ih =>
    rw [List.foldl_cons, ih]
    unfold record
    cases hconflict : e.hasConflict with
    | false => simp [hconflict]
    | true => simp [hconflict, Bool.or_assoc]

theorem entries_add (r : CheckResult) (p : Project) (es : List Entry) : (r.add p es).entries = r.entries ++ es := by
  unfold add entries
  rw [foldl_record]
  simp

theorem directConflicts_add (r : CheckResult) (p : Project) (es : List Entry) :
    (r.add p es).directConflicts = (r.directConflicts || es.any fun e => e.hasConflict && e.direct) := by
  unfold add
  rw [foldl_record]

theorem transitiveConflicts_add (r : CheckResult) (p : Project) (es : List Entry) :
    (r.add p es).transitiveConflicts = (r.transitiveConflicts || es.any fun e => e.hasConflict && !e.direct) := by
  unfold add
  rw [foldl_record]

end CheckResult

namespace Command

/-! ## One project -/

/-- The note that a check reports an entry with. -/
def noteOf (c : Configuration) (e : Entry) : Note :=
  ⟨levelOf c e, .command, Report.checkEntry e⟩

/-- The headline of the report of a project, unless progress is not told. -/
def headlines (c : Configuration) : List Note :=
  if c.quiet then [] else [⟨.info, .command, checkHeadline c⟩]

variable {resolver : Resolver σ} {registry : Registry} {c : Configuration} {reactor : List Project} {p : Project}

/-- A check of a project leaves the result as it is if there is nothing to analyse. Otherwise it reports all selected
entries of the analysis and adds them to the result. -/
theorem run_checkProject_ok_iff {r r' : CheckResult} {l l' : Ledger σ} :
    (checkProject resolver registry c reactor r p).run l = (.ok r', l') ↔
      ((analyze resolver registry c reactor p).run l = (.ok none, l') ∧ r' = r) ∨
      ∃ a m entries, (analyze resolver registry c reactor p).run l = (.ok (some a), m) ∧
        a.entries (a.selected c) = .ok entries ∧ r' = r.add p entries ∧
        l' = { m with notes := m.notes ++ headlines c ++ entries.map (noteOf c) } := by
  have hprogress : ∀ m : Ledger σ, (progress c (checkHeadline c) : Step σ Unit).run m =
      (.ok (), { m with notes := m.notes ++ headlines c }) := by
    intro m
    unfold progress headlines
    split
    · rw [List.append_nil]
      rfl
    · rfl
  unfold checkProject
  rw [Step.run_bind]
  -- the analysis fails, finds nothing to do, or gives the entries
  rcases hrun : (analyze resolver registry c reactor p).run l with ⟨_ | _ | a, m⟩
  · simp
  · simp [eq_comm, and_comm]
  · dsimp only
    rw [Step.run_bind, hprogress]
    dsimp only
    rw [Step.run_bind, Step.run_ofExcept]
    cases hentries : a.entries (a.selected c) with
    | error failure => simp [hentries]
    | ok entries =>
      have hreport : (forIn entries PUnit.unit fun e _ => do
          Step.note (levelOf c e) .command (Report.checkEntry e)
          return ForInStep.yield PUnit.unit : Step σ PUnit).run { m with notes := m.notes ++ headlines c } =
          (.ok (), { m with notes := m.notes ++ headlines c ++ entries.map (noteOf c) }) :=
        Step.run_forIn_note (levelOf c) .command Report.checkEntry entries _
      dsimp only
      rw [Step.run_bind, hreport]
      dsimp only
      rw [Step.run_pure]
      constructor
      · intro h
        cases h
        exact .inr ⟨a, m, entries, rfl, hentries, rfl, rfl⟩
      · rintro (⟨h, -⟩ | ⟨_, _, _, h, hentries', rfl, rfl⟩)
        · cases h
        · cases h
          obtain rfl := Except.ok.inj (hentries.symm.trans hentries')
          rfl

/-! ## All projects -/

/-- The result remembers which kinds of conflict its entries show, and of its entries those that make the check fail
have been reported as errors. No other errors were. -/
structure Accords (c : Configuration) (r : CheckResult) (written : List Note) : Prop where
  direct : r.directConflicts = r.entries.any fun e => e.hasConflict && e.direct
  transitive : r.transitiveConflicts = r.entries.any fun e => e.hasConflict && !e.direct
  alarms : written.filter (·.isAlarm) =
    (r.entries.filter (fails c)).map fun e => ⟨.error, .command, Report.checkEntry e⟩

theorem accords_empty (c : Configuration) : Accords c {} [] :=
  ⟨rfl, rfl, rfl⟩

/-- Of the notes that entries are reported with, those of the failing entries are alarms. -/
theorem filter_isAlarm_notes (c : Configuration) (es : List Entry) :
    (es.map (noteOf c)).filter (·.isAlarm) = (es.filter (fails c)).map fun e => ⟨.error, .command, Report.checkEntry e⟩ := by
  have hlevel : ∀ e, (noteOf c e).isAlarm = fails c e := by
    intro e
    unfold Note.isAlarm noteOf levelOf
    cases fails c e <;> cases e.hasConflict <;> rfl
  rw [List.filter_map]
  refine (List.map_congr_left fun e he => ?_).trans (congrArg (List.map _) (List.filter_congr fun e _ => hlevel e))
  have hfails : fails c e = true := by
    rw [← hlevel]
    exact (List.mem_filter.1 he).2
  unfold noteOf levelOf
  rw [if_pos hfails]

/-- More notes that are no alarms. -/
theorem Accords.append {r : CheckResult} {written added : List Note} (h : Accords c r written)
    (hadded : ∀ n ∈ added, n.isAlarm = false) : Accords c r (written ++ added) := by
  have hsilent : added.filter (·.isAlarm) = [] := by
    rw [List.filter_eq_nil_iff]
    intro n hn
    rw [hadded n hn]
    exact Bool.false_ne_true
  refine { h with alarms := ?_ }
  rw [List.filter_append, h.alarms, hsilent, List.append_nil]

/-- The entries of one more project. -/
theorem Accords.add {r : CheckResult} {written : List Note} (h : Accords c r written) (p : Project) (es : List Entry) :
    Accords c (r.add p es) (written ++ es.map (noteOf c)) where
  direct := by rw [CheckResult.directConflicts_add, CheckResult.entries_add, List.any_append, h.direct]
  transitive := by rw [CheckResult.transitiveConflicts_add, CheckResult.entries_add, List.any_append, h.transitive]
  alarms := by
    rw [List.filter_append, h.alarms, filter_isAlarm_notes, CheckResult.entries_add, List.filter_append, List.map_append]

/-- A check of any projects leaves a result that accords with the notes it has written. -/
theorem accords_check (hs : resolver.Discreet) {projects : List Project} {l l' : Ledger σ} {r : CheckResult}
    (hrun : (check resolver registry c projects).run l = (.ok r, l')) :
    ∃ written, l'.notes = l.notes ++ written ∧ Accords c r written := by
  refine Step.run_foldlM_ok (R := fun r k => ∃ written, k.notes = l.notes ++ written ∧ Accords c r written) ?_
    ⟨[], (List.append_nil _).symm, accords_empty c⟩ hrun
  -- project by project: what the analysis notes is no alarm, and its entries are reported one by one
  rintro p - r k r' k' ⟨written, hwritten, haccords⟩ hproject
  obtain ⟨added, hnotes, hadded⟩ := adds_analyze hs registry c projects p k
  rcases run_checkProject_ok_iff.1 hproject with ⟨hnone, rfl⟩ | ⟨a, m, es, hsome, -, rfl, rfl⟩
  · rw [hnone] at hnotes
    exact ⟨written ++ added, by rw [hnotes, hwritten, List.append_assoc], haccords.append hadded⟩
  · rw [hsome] at hnotes
    have hheadlines : ∀ n ∈ headlines c, n.isAlarm = false := by
      unfold headlines
      split
      · simp
      · simp [Note.isAlarm]
    refine ⟨_, ?_, ((haccords.append hadded).append hheadlines).add p es⟩
    dsimp only
    rw [hnotes, hwritten]
    simp only [List.append_assoc]

/-! ## What a check shows -/

/-- The configuration that shows only conflicts, or everything. -/
def showing (c : Configuration) (conflictsOnly : Bool) : Configuration :=
  { c with conflictsOnly }

/-- An entry is made of all groups of its artifact. -/
theorem any_entries {a : Analysis} {m : ResolutionMap} {es : List Entry} (h : a.entries m = .ok es) {p : Entry → Bool}
    {q : List RequestGroup → Bool} (hpq : ∀ name groups e, Entry.make a name groups = .ok e → p e = q groups) :
    es.any p = m.entries.any fun x => q x.2 := by
  have hmade := Except.mapM_ok_iff.1 h
  clear h
  generalize m.entries = xs at hmade
  induction hmade with
  | nil => rfl
  | cons hmake _ ih => rw [List.any_cons, List.any_cons, ih, hpq _ _ _ hmake]

/-- An entry is a conflict if one of its groups is, and direct if one of them is. -/
theorem conflict_of_make {a : Analysis} {name : Identity} {groups : List RequestGroup} {e : Entry}
    (h : Entry.make a name groups = .ok e) :
    e.hasConflict = groups.any (·.hasConflict) ∧ e.direct = groups.any (·.isDirect) := by
  unfold Entry.make at h
  split at h
  · cases h
  · cases h
    exact ⟨rfl, rfl⟩

/-- Leaving out what has no conflict leaves out no conflict. -/
theorem any_selected_showing (a : Analysis) (c : Configuration) (b : Bool) (q : List RequestGroup → Bool) :
    ((a.selected (showing c b)).entries.any fun x => x.2.any (·.hasConflict) && q x.2) =
      (a.selected c).entries.any fun x => x.2.any (·.hasConflict) && q x.2 := by
  unfold Analysis.selected ResolutionMap.select showing
  dsimp only
  rw [List.any_filter, List.any_filter]
  congr 1
  funext x
  cases x.2.any (·.hasConflict) with
  | false => simp
  | true => simp

/-- All artifacts of an analysis can be reported. -/
theorem exists_entries {l l' : Ledger σ} {a : Analysis}
    (hrun : (analyze resolver registry c reactor p).run l = (.ok (some a), l')) (c' : Configuration) :
    ∃ es, a.entries (a.selected c') = .ok es := by
  obtain ⟨es, hes, -⟩ := exists_entries_of_subset hrun fun _ hx => (List.mem_filter.1 hx).1
  exact ⟨es, hes⟩

/-- Both results remember the same kinds of conflict. -/
structure SameConflicts (r s : CheckResult) : Prop where
  direct : r.directConflicts = s.directConflicts
  transitive : r.transitiveConflicts = s.transitiveConflicts

variable {R : σ → σ → Prop}

/-- A check of a project that shows something else remembers the same conflicts. -/
theorem exists_checkProject_showing (hanswers : resolver.AnswersAlike R) (b : Bool) {r r' s : CheckResult}
    {l l' k : Ledger σ} (hlk : R l.state k.state) (hrs : SameConflicts r s)
    (hrun : (checkProject resolver registry c reactor r p).run l = (.ok r', l')) :
    ∃ s' k', (checkProject resolver registry (showing c b) reactor s p).run k = (.ok s', k') ∧ R l'.state k'.state ∧
      SameConflicts r' s' := by
  obtain ⟨hstates, halike⟩ := related_analyze_self hanswers.repeats registry c reactor p l k hlk
  -- what is shown has no part in the analysis
  have hshowing : analyze resolver registry (showing c b) reactor p = analyze resolver registry c reactor p := rfl
  rcases hsecond : (analyze resolver registry c reactor p).run k with ⟨x, n⟩
  rw [hsecond] at hstates halike
  rcases run_checkProject_ok_iff.1 hrun with ⟨hnone, rfl⟩ | ⟨a, m, es, hsome, hes, rfl, rfl⟩
  · rw [hnone] at hstates halike
    cases halike with
    | ok hx =>
      cases hx
      exact ⟨s, n, run_checkProject_ok_iff.2 (.inl ⟨hshowing ▸ hsecond, rfl⟩), hstates, hrs⟩
  · rw [hsome] at hstates halike
    cases halike with
    | ok hx =>
      cases hx with
      | some hsame =>
        rename_i a'
        obtain ⟨-, -, hrequests⟩ := hsame
        obtain ⟨es', hes'⟩ := exists_entries hsecond (showing c b)
        refine ⟨s.add p es', _, run_checkProject_ok_iff.2 (.inr ⟨a', n, es', hshowing ▸ hsecond, hes', rfl, rfl⟩), hstates, ?_⟩
        -- both lists of entries show the conflicts of the requests
        have hselected : a'.selected (showing c b) = a.selected (showing c b) := by
          unfold Analysis.selected
          rw [hrequests]
        have hany : ∀ (f : Bool → Bool), (es.any fun e => e.hasConflict && f e.direct) =
            es'.any fun e => e.hasConflict && f e.direct := by
          intro f
          have hmade : ∀ (a : Analysis) name groups e, Entry.make a name groups = .ok e →
              (e.hasConflict && f e.direct) = (groups.any (·.hasConflict) && f (groups.any (·.isDirect))) := by
            intro a name groups e he
            obtain ⟨hconflict, hdirect⟩ := conflict_of_make he
            rw [hconflict, hdirect]
          rw [any_entries hes (hmade a), any_entries hes' (hmade a'), hselected]
          exact (any_selected_showing a c b fun groups => f (groups.any (·.isDirect))).symm
        constructor
        · rw [CheckResult.directConflicts_add, CheckResult.directConflicts_add, hrs.direct]
          exact congrArg _ (hany id)
        · rw [CheckResult.transitiveConflicts_add, CheckResult.transitiveConflicts_add, hrs.transitive]
          exact congrArg _ (hany not)

/-- Neither does a check of any projects. -/
theorem exists_check_showing (hanswers : resolver.AnswersAlike R) (b : Bool) {projects : List Project} {r : CheckResult}
    {l l' k : Ledger σ} (hlk : R l.state k.state) (hrun : (check resolver registry c projects).run l = (.ok r, l')) :
    ∃ s k', (check resolver registry (showing c b) projects).run k = (.ok s, k') ∧ SameConflicts r s := by
  have hturn : ∀ p ∈ projects, ∀ (r : CheckResult) (l : Ledger σ) (s : CheckResult) (k : Ledger σ) (r' : CheckResult)
      (l' : Ledger σ), (R l.state k.state ∧ SameConflicts r s) →
      (checkProject resolver registry c projects r p).run l = (.ok r', l') →
      ∃ s' k', (checkProject resolver registry (showing c b) projects s p).run k = (.ok s', k') ∧
        R l'.state k'.state ∧ SameConflicts r' s' :=
    fun p _ r l s k r' l' hrelated hproject => exists_checkProject_showing hanswers b hrelated.1 hrelated.2 hproject
  unfold check at hrun ⊢
  obtain ⟨s, k', hsecond, -, hsame⟩ := Step.exists_run_foldlM hturn ⟨hlk, rfl, rfl⟩ hrun
  exact ⟨s, k', hsecond, hsame⟩

/-! ## The verdict -/

/-- A conflict of a direct dependency fails if any or direct ones are to fail. -/
theorem any_fails_direct (c : Configuration) (es : List Entry) :
    (es.any fun e => fails c e && e.direct) =
      ((es.any fun e => e.hasConflict && e.direct) && (c.failOnConflict || c.failOnDirectConflict)) := by
  have hfails : ∀ e : Entry, (fails c e && e.direct) =
      (e.hasConflict && e.direct && (c.failOnConflict || c.failOnDirectConflict)) := by
    intro e
    unfold fails
    cases e.hasConflict <;> cases e.direct <;> simp
  simp only [hfails]
  induction es with
  | nil => rfl
  | cons e es ih => rw [List.any_cons, List.any_cons, ih, Bool.and_or_distrib_right]

/-- Any other one fails only if any are. -/
theorem any_fails (c : Configuration) (es : List Entry) :
    es.any (fails c) = ((es.any fun e => fails c e && e.direct) ||
      ((es.any fun e => e.hasConflict && !e.direct) && c.failOnConflict)) := by
  induction es with
  | nil => rfl
  | cons e es ih =>
    rw [List.any_cons, List.any_cons, List.any_cons, ih, Bool.and_or_distrib_right]
    have hfails : fails c e = (fails c e && e.direct || e.hasConflict && !e.direct && c.failOnConflict) := by
      unfold fails
      cases e.hasConflict <;> cases e.direct <;> simp
    nth_rewrite 1 [hfails]
    ac_rfl

/-- The verdict is a failure just if some entry fails, and names direct dependencies just if a failing one is direct. -/
theorem Accords.verdict_eq {r : CheckResult} {written : List Note} (h : Accords c r written) :
    r.verdict c =
      if r.entries.any (fun e => fails c e && e.direct) then .error .directConflict
      else if r.entries.any (fails c) then .error .transitiveConflict
      else .ok () := by
  unfold CheckResult.verdict
  rw [h.direct, h.transitive, ← any_fails_direct]
  cases hdirect : r.entries.any fun e => fails c e && e.direct with
  | true => rfl
  | false => rw [any_fails, hdirect, Bool.false_or]

/-- The alarms are those of the failing entries. -/
theorem Accords.exists_alarm_iff {r : CheckResult} {written : List Note} (h : Accords c r written) :
    (∃ n ∈ written, n.speaker = .command ∧ n.level = .error) ↔ r.entries.any (fails c) = true := by
  have halarm : ∀ n : Note, n.isAlarm = true ↔ n.speaker = .command ∧ n.level = .error := by
    intro n
    unfold Note.isAlarm
    simp
  constructor
  -- an alarm is the report of an entry, and only failing ones are reported as alarms
  · rintro ⟨n, hn, hsays⟩
    have hmem : n ∈ written.filter (·.isAlarm) := List.mem_filter.2 ⟨hn, (halarm n).2 hsays⟩
    rw [h.alarms] at hmem
    obtain ⟨e, he, -⟩ := List.mem_map.1 hmem
    exact List.any_eq_true.2 ⟨e, List.mem_filter.1 he⟩
  · intro hany
    obtain ⟨e, he, hfails⟩ := List.any_eq_true.1 hany
    have hmem : (⟨.error, .command, Report.checkEntry e⟩ : Note) ∈ written.filter (·.isAlarm) := by
      rw [h.alarms]
      exact List.mem_map_of_mem (List.mem_filter.2 ⟨he, hfails⟩)
    exact ⟨_, (List.mem_filter.1 hmem).1, rfl, rfl⟩

end Command

open Command

/-- The verdict of a check agrees with its report. Take a resolver that writes its notes as the engine and answers in
the same way from states that `R` links. If a check of some projects comes to its end, the errors that it has reported
are its failing entries. The verdict is a failure just if there is such an error, and its message names direct
dependencies just if a failing entry is direct. And from every linked state a check that shows something else comes to
its end as well and has the same verdict. -/
theorem verdict_error_iff_exists_alarm {R : σ → σ → Prop} {resolver : Resolver σ} (hdiscreet : resolver.Discreet)
    (hanswers : resolver.AnswersAlike R) {registry : Registry} {c : Configuration} {projects : List Project}
    {l l' : Ledger σ} {r : CheckResult} (hrun : (check resolver registry c projects).run l = (.ok r, l')) :
    ∃ written, l'.notes = l.notes ++ written ∧
      written.filter (·.isAlarm) =
        ((r.entries.filter (fails c)).map fun e => ⟨.error, .command, Report.checkEntry e⟩) ∧
      ((∃ failure, r.verdict c = .error failure) ↔ ∃ n ∈ written, n.speaker = .command ∧ n.level = .error) ∧
      (∀ failure, r.verdict c = .error failure → failure.message =
        if r.entries.any (fun e => fails c e && e.direct) then "Version conflict in direct dependencies detected!"
        else "Version conflict in transitive dependencies detected!") ∧
      ∀ b k, R l.state k.state → ∃ s k',
        (check resolver registry { c with conflictsOnly := b } projects).run k = (.ok s, k') ∧
          s.verdict { c with conflictsOnly := b } = r.verdict c := by
  obtain ⟨written, hwritten, haccords⟩ := accords_check hdiscreet hrun
  refine ⟨written, hwritten, haccords.alarms, ?_, ?_, ?_⟩
  · rw [haccords.exists_alarm_iff, haccords.verdict_eq]
    split
    · -- a direct entry that fails is one that fails
      rename_i hdirect
      obtain ⟨e, he, hfails⟩ := List.any_eq_true.1 hdirect
      exact iff_of_true ⟨_, rfl⟩ (List.any_eq_true.2 ⟨e, he, (Bool.and_eq_true_iff.1 hfails).1⟩)
    · split
      · rename_i hfails
        exact iff_of_true ⟨_, rfl⟩ hfails
      · rename_i hfails
        refine iff_of_false ?_ hfails
        rintro ⟨failure, hfailure⟩
        cases hfailure
  · intro failure hfailure
    rw [haccords.verdict_eq] at hfailure
    split at hfailure
    · rename_i hdirect
      obtain rfl := Except.error.inj hfailure
      rw [if_pos hdirect]
      rfl
    · rename_i hdirect
      rw [if_neg hdirect]
      split at hfailure
      · obtain rfl := Except.error.inj hfailure
        rfl
      · cases hfailure
  · intro b k hlk
    obtain ⟨s, k', hsecond, hsame⟩ := exists_check_showing hanswers b hlk hrun
    refine ⟨s, k', hsecond, ?_⟩
    unfold CheckResult.verdict
    dsimp only
    rw [hsame.direct, hsame.transitive]

/-! ## A managed version that nobody expects -/

namespace DepsDev.Crossing

/-- The project manages `x` to a version that is too old for `d` and `e`. -/
def managing : Project :=
  { project with management := .ofList [("g:x", { artifact := { group := "g", name := "x", version := "0" } })] }

def strict : Configuration :=
  { scope := "compile", defaultStrategy := some "apr", failOnConflict := true }

/-- The check of the project reports an error, and its verdict is a failure, also if the check shows everything. -/
theorem verdict_error_iff_exists_alarm_managing : ∃ r l' written,
    (check (resolver service 30) (.ofList []) strict [managing]).run ledger = (.ok r, l') ∧
      l'.notes = ledger.notes ++ written ∧ (∃ n ∈ written, n.speaker = .command ∧ n.level = .error) ∧
      r.verdict strict = .error .transitiveConflict ∧
      ∃ s k', (check (resolver service 30) (.ofList []) { strict with conflictsOnly := false } [managing]).run ledger =
        (.ok s, k') ∧ s.verdict { strict with conflictsOnly := false } = .error .transitiveConflict := by
  have hconflicts : (((check (resolver service 30) (.ofList []) strict [managing]).run ledger).1.toOption.map fun r =>
      (r.directConflicts, r.transitiveConflicts)) = some (false, true) := by
    decide +kernel
  obtain ⟨r, hr, hkinds⟩ := Option.map_eq_some_iff.1 hconflicts
  obtain ⟨hdirect, htransitive⟩ := Prod.mk.inj hkinds
  have hverdict : r.verdict strict = .error .transitiveConflict := by
    unfold CheckResult.verdict
    rw [hdirect, htransitive]
    rfl
  obtain ⟨l', hrun⟩ := Except.exists_of_toOption hr
  have hservice : service.Steady := fun _ _ _ => rfl
  obtain ⟨written, hwritten, -, hiff, -, hshowing⟩ :=
    verdict_error_iff_exists_alarm (discreet_resolver service 30) (answersAlike_resolver hservice) hrun
  obtain ⟨s, k', hsecond, hsame⟩ := hshowing false ledger ⟨.fresh (), .fresh ()⟩
  exact ⟨r, l', written, hrun, hwritten, hiff.1 ⟨_, hverdict⟩, hverdict, s, k', hsecond, hsame.trans hverdict⟩

end DepsDev.Crossing

end VersionAudit
