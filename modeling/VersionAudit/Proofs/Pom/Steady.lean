import VersionAudit.Proofs.Pom.Completion
import VersionAudit.Proofs.Step.Related

/-!
# A project is the same whatever was read before

1. `Linked`: two faithful memories in which the same bills are known.
2. `related_effective`: from linked memories a model is made alike.
3. `run_project_alike`: the project of a model, made from any faithful memory.
-/

namespace VersionAudit.Pom

open Xml (Element)
open Step (Related)

variable {σ α : Type} {models : Models} {before before' : List Note}

/-- Two faithful memories in which the same bills are known, and notes that go on from two given ones. -/
structure Linked (models : Models) (before before' : List Note) (l k : Ledger (Memory σ)) : Prop where
  faithful : l.state.Faithful models ∧ k.state.Faithful models
  imported : l.state.imported = k.state.imported
  notes : before <+: l.notes ∧ before' <+: k.notes

/-- A step that shows nothing of the memory gives the same from linked ledgers. -/
theorem Gives.related {step : Step (Memory σ) α} {x : Except Failure α} (h : Gives models step x) :
    Related (Linked models before before') step step Eq := by
  intro l k hlk
  obtain ⟨hx, hl, himported, hnotes⟩ := h l hlk.faithful.1
  obtain ⟨hx', hk, himported', hnotes'⟩ := h k hlk.faithful.2
  rw [hx, hx']
  refine ⟨⟨⟨hl, hk⟩, ?_, hlk.notes.1.trans hnotes, hlk.notes.2.trans hnotes'⟩, Step.alike_self x⟩
  rw [himported, himported', hlk.imported]

namespace Source

variable {s : Source σ} {expand : Document → Step (Memory σ) Project}

/-- A bill is imported alike, since linked ledgers know the same bills. -/
theorem related_importBill (hr : s.repository.Offers models)
    (hexpand : ∀ d, Related (Linked models before before') (expand d) (expand d) Eq) (c : Coordinates) :
    Related (Linked models before before') (importBill s expand c) (importBill s expand c) Eq := by
  intro l k hlk
  -- the bill is known to both memories or to none, and both are offered the same model
  rcases run_importBill hr expand c hlk.faithful.1 with ⟨hold, hrun⟩ | ⟨l', hnew, hl', himported, hnotes, hcases⟩
  · rcases run_importBill hr expand c hlk.faithful.2 with ⟨-, hrun'⟩ | ⟨-, hnew, -⟩
    · rw [hrun, hrun']
      exact ⟨hlk, .ok rfl⟩
    · exact absurd (hlk.imported ▸ hold) hnew
  · rcases run_importBill hr expand c hlk.faithful.2 with ⟨hold, -⟩ | ⟨k', -, hk', himported', hnotes', hcases'⟩
    · exact absurd (hlk.imported ▸ hold) hnew
    · have hlinked : Linked models before before' l' k' :=
        ⟨⟨hl', hk'⟩, by rw [himported, himported', hlk.imported], hlk.notes.1.trans hnotes, hlk.notes.2.trans hnotes'⟩
      rcases hcases with ⟨hoffer, hrun⟩ | ⟨reason, hoffer, hrun⟩ | ⟨root, hoffer, hrun⟩ <;>
        rcases hcases' with ⟨hoffer', hrun'⟩ | ⟨reason', hoffer', hrun'⟩ | ⟨root', hoffer', hrun'⟩ <;>
        cases hoffer.symm.trans hoffer'
      · rw [hrun, hrun']
        exact ⟨hlinked, .ok rfl⟩
      · rw [hrun, hrun']
        exact ⟨hlinked, .error _⟩
      · rw [hrun, hrun']
        refine (hexpand _).bind ?_ l' k' hlinked
        rintro p _ rfl
        exact .pure rfl

/-- An entry is taken alike. -/
theorem related_add (hr : s.repository.Offers models)
    (hexpand : ∀ d, Related (Linked models before before') (expand d) (expand d) Eq) (properties : Properties) (m : Managed)
    (e : Element) :
    Related (Linked models before before') (Managed.add s expand properties m e) (Managed.add s expand properties m e)
      Eq := by
  unfold Managed.add
  refine (gives_dependencyOf? properties e).related.bind ?_
  rintro d? _ rfl
  -- an entry without a version is left out in both runs, and only a bill opens another model
  cases d? with
  | none => exact .pure rfl
  | some d =>
    dsimp only
    split
    · exact .pure rfl
    · split
      · refine (related_importBill hr hexpand _).bind ?_
        rintro management _ rfl
        exact .pure rfl
      · exact .pure rfl

/-- From linked memories a model is made alike. -/
theorem related_effective (hr : s.repository.Offers models) (depth : Nat) (d : Document) :
    Related (Linked models before before') (s.effective depth d) (s.effective depth d) Eq := by
  induction depth generalizing d with
  | zero => exact .fail
  | succ depth ih =>
    rw [effective_succ]
    obtain ⟨x, hgives, -⟩ := exists_gives_opening hr d
    refine hgives.related.bind ?_
    rintro found _ rfl
    refine Related.bind (Related.foldlM (S := Eq) ?_ rfl) ?_
    · rintro e - m _ rfl
      refine related_add hr (fun bill => (ih bill).bind ?_) _ m e
      rintro made _ rfl
      exact .pure rfl
    · rintro managed _ rfl
      exact .pure rfl

/-- From any two faithful memories the project of a model is made alike, and each run only adds notes. -/
theorem run_project_alike (hr : s.repository.Offers models) (d : Document) {l k : Ledger (Memory σ)}
    (hl : l.state.Faithful models) (hk : k.state.Faithful models) :
    ((s.project d).run l).1 = ((s.project d).run k).1 ∧ ((s.project d).run k).2.state.Faithful models ∧
      k.notes <+: ((s.project d).run k).2.notes := by
  have hmade : Related (Linked models l.notes k.notes) (s.make d) (s.make d) Eq := by
    refine (related_effective hr s.depth d).bind ?_
    rintro ⟨made, properties⟩ _ rfl
    refine (Gives.filterMapM (gives_declared? made.management properties) _).related.bind ?_
    rintro dependencies _ rfl
    exact .pure rfl
  rw [run_project, run_project]
  obtain ⟨hlinked, halike⟩ := hmade ⟨{ l.state with imported := [] }, l.notes⟩ ⟨{ k.state with imported := [] }, k.notes⟩
    ⟨⟨hl, hk⟩, rfl, List.prefix_refl _, List.prefix_refl _⟩
  exact ⟨halike.eq, hlinked.faithful.2, hlinked.notes.2⟩

end Source

end VersionAudit.Pom
