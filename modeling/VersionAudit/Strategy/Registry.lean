import VersionAudit.Pattern
import VersionAudit.Strategy.Basic
import VersionAudit.Text.LowerCase

/-!
# Finding the strategy of an artifact

1. `Registry`: strategies by name, whatever the case of its letters.
2. `Assignment`: which artifacts use which strategy. The first rule that selects an artifact counts, and the
   default applies to all others.
3. `Assignment.strategy`: the look-up, which remembers its answers.
-/

namespace VersionAudit

/-- The known strategies by lower-case name. -/
structure Registry where
  strategies : OrderedMap String Strategy

namespace Registry

/-- Adds a strategy, in place of one of the same name. -/
def register (r : Registry) (s : Strategy) : Registry :=
  ⟨r.strategies.insert (Text.lower s.name) s⟩

/-- The registry of the strategies that are always known, followed by others. -/
def ofList (more : List Strategy) : Registry :=
  (Strategy.known ++ more).foldl register ⟨∅⟩

/-- The strategy of a name. -/
def find? (r : Registry) (name : String) : Option Strategy :=
  r.strategies.find? (Text.lower name)

/-- The names of the strategies in lower case. -/
def names (r : Registry) : List String :=
  r.strategies.keys

end Registry

/-- A strategy by name for the artifacts that one of the patterns selects. -/
structure StrategyRule where
  strategy : Option String
  patterns : List Pattern
deriving Repr

namespace StrategyRule

/-- Reads a rule. Blank patterns do not count. -/
def read (strategy : Option String) (patterns : List String) : Except PatternFault StrategyRule := do
  let patterns ← (patterns.filter fun p => !Text.isBlankText p).mapM fun p => Pattern.read (Text.trim p)
  return ⟨strategy, patterns⟩

end StrategyRule

/-- The faults of an assignment. -/
inductive AssignmentFault
  | unnamed
  | unknownDefault (name : String)
  | unknown (name : String)
deriving Repr, DecidableEq

/-- The message of a fault. -/
def AssignmentFault.message : AssignmentFault → String
  | .unnamed => "name is None"
  | .unknownDefault name => "Could not locate default version strategy '" ++ name ++ "'"
  | .unknown name => "Could not locate version strategy " ++ name ++ "! Check for typos!"

/-- Strategies by identity, with the answers given so far. -/
structure Assignment where
  fallback : Strategy
  rules : List (Pattern × Strategy)
  remembered : OrderedMap Identity Strategy := ∅
deriving Inhabited

namespace Assignment

/-- Finds a strategy that a name asks for; `unknown` is the fault if there is none of the name. -/
def require (registry : Registry) (unknown : String → AssignmentFault) :
    Option String → Except AssignmentFault Strategy
  | none => .error .unnamed
  | some name =>
    match registry.find? name with
    | some s => .ok s
    | none => .error (unknown name)

/-- The assignment of a list of rules. -/
def make (registry : Registry) (rules : List StrategyRule) (fallback : Option String) :
    Except AssignmentFault Assignment := do
  let fallback ← require registry .unknownDefault fallback
  let rules ← rules.mapM fun rule => do
    let s ← require registry .unknown rule.strategy
    return rule.patterns.map (·, s)
  return { fallback, rules := rules.flatten }

/-- The strategy that the rules give an artifact. -/
def lookup (a : Assignment) (n : Identity) : Strategy :=
  match a.rules.find? fun rule => rule.1.selects n with
  | some rule => rule.2
  | none => a.fallback

/-- The strategy of an artifact: the answer remembered for it, or else what the rules give, which is
remembered from then on. -/
def strategy (a : Assignment) (n : Identity) : Strategy × Assignment :=
  match a.remembered.find? n with
  | some s => (s, a)
  | none =>
    let s := a.lookup n
    (s, { a with remembered := a.remembered.insert n s })

end Assignment

end VersionAudit
