import VersionAudit.Proofs.Strategy.Assignment

/-!
# The first pattern counts

An artifact has the strategy of the first pattern that selects it, in the order in which rules and their patterns are
declared, or else the default one. It has it from every look-up, whatever was looked up before.

1. `exists_make_iff`: when there is an assignment.
2. `lookup_make`: the rules give what the first pattern says.
3. `strategy_transparent`: so does an assignment that remembers earlier answers.
-/

namespace VersionAudit

/-- The patterns of all rules as they are declared, each with the name of its strategy. -/
def StrategyRule.declared (rules : List StrategyRule) : List (Pattern × Option String) :=
  rules.flatMap fun rule => rule.patterns.map (·, rule.strategy)

/-- The name of the strategy of an artifact: that of the first pattern that selects it, or else the default one. -/
def StrategyRule.ruling (rules : List StrategyRule) (fallback : Option String) (n : Identity) : Option String :=
  match (declared rules).find? (·.1.selects n) with
  | some (_, strategy) => strategy
  | none => fallback

namespace Assignment

variable {registry : Registry} {rules : List StrategyRule} {fallback : Option String} {a : Assignment}

/-- There is an assignment if the strategies that its default and its rules name are known. -/
theorem exists_make_iff :
    (∃ a, make registry rules fallback = .ok a) ↔
      (fallback.bind registry.find?).isSome ∧ ∀ rule ∈ rules, (rule.strategy.bind registry.find?).isSome := by
  simp only [make_ok_iff, Option.isSome_iff_exists]
  constructor
  · rintro ⟨a, s, blocks, hs, hblocks, -⟩
    refine ⟨⟨s, hs⟩, fun rule hrule => ?_⟩
    obtain ⟨block, s', hs', -⟩ := exists_forall₂_iff.1 ⟨blocks, hblocks⟩ rule hrule
    exact ⟨s', hs'⟩
  · rintro ⟨⟨s, hs⟩, hrules⟩
    have hblock : ∀ rule ∈ rules, ∃ block : List (Pattern × Strategy),
        ∃ s, rule.strategy.bind registry.find? = some s ∧ rule.patterns.map (·, s) = block := by
      intro rule hrule
      obtain ⟨s', hs'⟩ := hrules rule hrule
      exact ⟨_, s', hs', rfl⟩
    -- one block for each rule, so that there are all of them at once
    obtain ⟨blocks, hblocks⟩ := exists_forall₂_iff.2 hblock
    exact ⟨_, s, blocks, hs, hblocks, rfl⟩

/-- The rules give what the first pattern says that selects the artifact. -/
theorem lookup_make (h : make registry rules fallback = .ok a) (n : Identity) :
    (StrategyRule.ruling rules fallback n).bind registry.find? = some (a.lookup n) := by
  obtain ⟨s, blocks, hs, hblocks, rfl⟩ := make_ok_iff.1 h
  clear h
  unfold StrategyRule.ruling StrategyRule.declared lookup
  dsimp only
  induction hblocks with
  | nil => exact hs
  | cons hblock hrest ih =>
    rename_i rule block rules blocks
    obtain ⟨s', hs', rfl⟩ := hblock
    have hfind : ∀ {α : Type} (x : α), (rule.patterns.map (·, x)).find? (·.1.selects n) =
        (rule.patterns.find? (·.selects n)).map (·, x) := fun x => List.find?_map ..
    rw [List.flatMap_cons, List.flatten_cons, List.find?_append, List.find?_append, hfind, hfind]
    -- the first rule decides, unless none of its own patterns selects the artifact
    cases rule.patterns.find? (·.selects n) with
    | some p => exact hs'
    | none => exact ih

/-- Identities that mean the same artifact have the same strategy. -/
theorem lookup_eq_of_isSame (a : Assignment) {m n : Identity} (h : m.isSame n = true) : a.lookup m = a.lookup n := by
  unfold Identity.isSame at h
  simp only [Bool.and_eq_true, beq_iff_eq] at h
  obtain ⟨⟨hgroup, hname⟩, -⟩ := h
  unfold lookup Pattern.selects
  rw [hgroup, hname]

/-- What an assignment remembers does not show. There is an assignment just if the strategies that its default and its
rules name are known, and whatever was looked up before:

* An artifact has the strategy of the first declared pattern that selects it, or the default one if none does.
* That is what an assignment gives for which it is the first look-up.
* Identities that mean the same artifact have the same strategy, however they are spelled and whichever was looked up
  first. -/
theorem strategy_transparent (registry : Registry) (rules : List StrategyRule) (fallback : Option String) :
    ((∃ a, make registry rules fallback = .ok a) ↔
      (fallback.bind registry.find?).isSome ∧ ∀ rule ∈ rules, (rule.strategy.bind registry.find?).isSome) ∧
    ∀ fresh, make registry rules fallback = .ok fresh → ∀ a, Left fresh a → ∀ n,
      (StrategyRule.ruling rules fallback n).bind registry.find? = some (a.strategy n).1 ∧
      (a.strategy n).1 = (fresh.strategy n).1 ∧
      ∀ b m, Left fresh b → m.isSame n = true → (b.strategy m).1 = (a.strategy n).1 := by
  refine ⟨exists_make_iff, fun fresh hfresh => ?_⟩
  -- whatever was looked up before, the answer is the one of the rules
  have hlookup : ∀ a, Left fresh a → ∀ n, (a.strategy n).1 = fresh.lookup n :=
    fun a ha n => strategy_eq_lookup (ha.remembers (remembers_make hfresh)) n
  intro a ha n
  refine ⟨?_, ?_, ?_⟩
  · rw [hlookup a ha n]
    exact lookup_make hfresh n
  · rw [hlookup a ha n, hlookup fresh .start n]
  · intro b m hb hm
    rw [hlookup b hb m, hlookup a ha n]
    exact lookup_eq_of_isSame fresh hm

end Assignment

/-! ## The tests of a library -/

namespace Spellings

open Assignment

def pattern (group name : String) : Pattern :=
  ⟨group ++ ":" ++ name, .ofString group, .ofString name⟩

/-- Two rules that both select the library, of which the first one counts. -/
def rules : List StrategyRule :=
  [{ strategy := some "APR", patterns := [pattern "com*" "", pattern "org" "lib*"] },
    { strategy := some "single-digit", patterns := [pattern "org" "library"] }]

def kind : Identity :=
  { group := "org", name := "library", variant := some ("test-jar", none) }

def classifier : Identity :=
  { group := "org", name := "library", variant := some ("jar", some "tests") }

/-- The tests of the library have one strategy in both spellings, whichever is looked up first. -/
theorem strategy_transparent_tests : ∃ fresh, make (.ofList []) rules (some "default") = .ok fresh ∧
    kind ≠ classifier ∧ classifier.isSame kind = true ∧
    (Registry.ofList []).find? "APR" = some ((fresh.strategy classifier).2.strategy kind).1 ∧
    ((fresh.strategy kind).2.strategy classifier).1 = ((fresh.strategy classifier).2.strategy kind).1 := by
  obtain ⟨hexists, hall⟩ := strategy_transparent (.ofList []) rules (some "default")
  obtain ⟨fresh, hfresh⟩ := hexists.2 (by decide +kernel)
  have hruling : StrategyRule.ruling rules (some "default") kind = some "APR" := by decide +kernel
  have hsame : classifier.isSame kind = true := by decide
  obtain ⟨hfirst, -, hspelled⟩ := hall fresh hfresh _ (.strategy classifier .start) kind
  rw [hruling] at hfirst
  exact ⟨fresh, hfresh, by decide, hsame, hfirst, hspelled _ classifier (.strategy kind .start) hsame⟩

end Spellings

end VersionAudit
