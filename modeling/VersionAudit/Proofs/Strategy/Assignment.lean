import VersionAudit.Proofs.Except
import VersionAudit.Proofs.Identity
import VersionAudit.Proofs.OrderedMap
import VersionAudit.Proofs.Version.Equality
import VersionAudit.Strategy.Registry

/-!
# Remembered strategies

An assignment remembers the strategies it has given. `Remembers` says that it is another assignment with some
answers remembered, all of which the rules would give again; looking up a strategy keeps this
(`remembers_strategy`), so whatever is remembered does not show (`strategy_eq_lookup`). An assignment that has just been
made of rules (`make_ok_iff`) remembers nothing.
-/

namespace VersionAudit

namespace Assignment

/-- The rules give equal identities the same strategy. -/
theorem lookup_congr (a : Assignment) {m n : Identity} (h : (m == n) = true) : a.lookup m = a.lookup n := by
  unfold lookup
  simp only [Pattern.selects_congr _ h]

/-- The rules and the fallback are those of `fresh`, and all that is remembered is what they give. -/
structure Remembers (fresh a : Assignment) : Prop where
  rules : a.rules = fresh.rules
  fallback : a.fallback = fresh.fallback
  sound : ∀ n s, a.remembered.find? n = some s → s = fresh.lookup n

variable {fresh a : Assignment}

/-- A registry that remembers finds what a fresh one would. -/
theorem Remembers.lookup_eq (h : Remembers fresh a) (n : Identity) : a.lookup n = fresh.lookup n := by
  unfold lookup
  rw [h.rules, h.fallback]

/-- What was remembered does not show in the answer. -/
theorem strategy_eq_lookup (h : Remembers fresh a) (n : Identity) : (a.strategy n).1 = fresh.lookup n := by
  unfold strategy
  split
  · rename_i s hs
    exact h.sound n s hs
  · exact h.lookup_eq n

/-- Looking up a strategy keeps it so. -/
theorem remembers_strategy (h : Remembers fresh a) (n : Identity) : Remembers fresh (a.strategy n).2 := by
  unfold strategy
  split
  · exact h
  · refine ⟨h.rules, h.fallback, ?_⟩
    intro m s hs
    -- what is remembered now is the new answer, or one from before
    rw [OrderedMap.find?_insert] at hs
    split at hs
    · rename_i hnm
      obtain rfl := Option.some.inj hs
      rw [h.lookup_eq, lookup_congr fresh hnm]
    · exact h.sound m s hs

/-- An assignment that look-ups, one after the other, have left of `fresh`. -/
inductive Left (fresh : Assignment) : Assignment → Prop
  | start : Left fresh fresh
  | strategy {a : Assignment} (n : Identity) (h : Left fresh a) : Left fresh (a.strategy n).2

/-- A registry that was left by look-ups remembers. -/
theorem Left.remembers (hfresh : Remembers fresh fresh) (h : Left fresh a) : Remembers fresh a := by
  induction h with
  | start => exact hfresh
  | strategy n _ ih => exact remembers_strategy ih n

section Making

variable {registry : Registry} {rules : List StrategyRule} {fallback : Option String}

/-- A strategy is required by its name. -/
theorem require_ok_iff {unknown : String → AssignmentFault} {name? : Option String} {s : Strategy} :
    require registry unknown name? = .ok s ↔ name?.bind registry.find? = some s := by
  cases name? with
  | none => simp [require]
  | some name =>
    rw [Option.bind_some]
    simp only [require]
    split
    · rename_i found hfound
      simp [hfound]
    · rename_i hnone
      simp [hnone]

/-- An assignment is made of the strategies that the default and the rules name. -/
theorem make_ok_iff :
    make registry rules fallback = .ok a ↔ ∃ s blocks, fallback.bind registry.find? = some s ∧
      List.Forall₂ (fun rule block => ∃ s, rule.strategy.bind registry.find? = some s ∧ rule.patterns.map (·, s) = block)
        rules blocks ∧
      { fallback := s, rules := blocks.flatten } = a := by
  unfold make
  simp only [Except.bind_ok_iff, require_ok_iff, Except.mapM_ok_iff, pure, Except.pure, Except.ok.injEq]
  constructor
  · rintro ⟨s, hs, blocks, hblocks, rfl⟩
    exact ⟨s, blocks, hs, hblocks, rfl⟩
  · rintro ⟨s, blocks, hs, hblocks, rfl⟩
    exact ⟨s, hs, blocks, hblocks, rfl⟩

/-- An assignment just made remembers nothing yet. -/
theorem remembers_make (h : make registry rules fallback = .ok a) : Remembers a a := by
  obtain ⟨s, blocks, -, -, rfl⟩ := make_ok_iff.1 h
  refine ⟨rfl, rfl, ?_⟩
  intro n s hs
  cases hs

end Making

end Assignment

/-! ## Strategies that read canonical forms -/

/-- The verdict of the strategy depends on the canonical forms of the two versions only. -/
def Strategy.ReadsCanonical (s : Strategy) : Prop :=
  ∀ ⦃e e' r r' : Version⦄, (e == e') = true → (r == r') = true → s.isCompatible e r = s.isCompatible e' r'

/-- The strategy `apr` looks at components only, so it does. -/
theorem Strategy.readsCanonical_apr : Strategy.apr.ReadsCanonical := by
  intro e e' r r' he hr
  unfold apr components
  simp only [Version.beq_iff.1 he, Version.beq_iff.1 hr]

/-- Every strategy that the assignment gives reads canonical forms only. -/
def Assignment.ReadsCanonical (a : Assignment) : Prop :=
  ∀ n, (a.lookup n).ReadsCanonical

end VersionAudit
