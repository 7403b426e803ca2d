import VersionAudit.CommandLine.Grammar
import VersionAudit.Configuration
import VersionAudit.Text.Digit

/-!
# The command line of the program

1. `Options`: what can be asked for.
2. `grammar`: the options of the two commands.
3. `Invocation.read`: from the words of a command line to what they ask for.
4. `Options.configuration`: the configuration of the audit.
-/

namespace VersionAudit.CommandLine

/-- The two commands. -/
inductive CommandName
  | check
  | list
deriving Repr, DecidableEq

/-- The form of a report. -/
inductive Format
  | text
  | sbom
deriving Repr, DecidableEq

/-- What can be asked for. -/
structure Options where
  format : Format := .text
  scope : String := "test"
  deepScan : Bool := false
  directOnly : Bool := false
  managedOnly : Bool := false
  /-- Strategies with the patterns they are used for, separated by commas. -/
  strategies : List (String × String) := []
  /-- Pattern, expected version and resolved version. -/
  waivers : List (String × String × String) := []
  /-- The strategy of artifacts that no pattern selects. Its name may be left out, but no audit accepts that. -/
  defaultStrategy : Option String := some "default"
  systemMustResolve : Bool := false
  includePomProjects : Bool := false
  skip : Bool := false
  timeout : Int := 30
  quiet : Bool := false
  conflictsOnly : Bool := false
  failOnConflict : Bool := false
  failOnDirectConflict : Bool := false
deriving Repr

/-- An option without values. -/
def flag (names : List String) (f : Options → Options) : Rule Options :=
  { names, action := .change fun _ o => some (f o) }

/-- An option with one value, which may be left out where it should stand in the same word. -/
def valued (name : String) (f : Option String → Options → Option Options) : Rule Options where
  names := [name]
  arity := 1
  action := .change fun values => f values.head?

/-- The form of a name. Without a name it is the text. -/
def Format.read : Option String → Option Format
  | none => some .text
  | some "text" => some .text
  | some "sbom" => some .sbom
  | some _ => none

/-- What stands for a scope that is left out. It is no scope, so an audit refuses it. -/
def missingScope : String := "[]"

/-- The scope of a name. -/
def readScope : Option String → Option String
  | none => some missingScope
  | some name => if Configuration.scopes.contains name then some name else none

/-- The names of the levels of the log. -/
def logLevels : List String := ["DEBUG", "INFO", "WARN", "ERROR"]

/-- The options of both commands. -/
def commonRules : Grammar Options :=
  [{ names := ["-h", "--help"], action := .inform },
    valued "--format" fun v o => (Format.read v).map fun format => { o with format },
    valued "--scope" fun v o => (readScope v).map fun scope => { o with scope },
    flag ["--deep-scan"] fun o => { o with deepScan := true },
    flag ["--direct-only"] fun o => { o with directOnly := true },
    flag ["--managed-only"] fun o => { o with managedOnly := true },
    flag ["--sequential"] id,
    { names := ["--resolver"], arity := 2,
      action := .change fun values o =>
        match values with
        | [strategy, patterns] => some { o with strategies := o.strategies ++ [(strategy, patterns)] }
        | _ => none },
    { names := ["--exclude"], arity := 3,
      action := .change fun values o =>
        match values with
        | [pattern, expected, resolved] =>
          some { o with waivers := o.waivers ++ [(pattern, expected, resolved)] }
        | _ => none },
    valued "--default-strategy" fun defaultStrategy o => some { o with defaultStrategy },
    flag ["--unresolved-system-artifacts-fail-build"] fun o => { o with systemMustResolve := true },
    flag ["--include-pom-projects"] fun o => { o with includePomProjects := true },
    flag ["--skip"] fun o => { o with skip := true },
    valued "--timeout" fun v o =>
      match v with
      | none => some o
      | some text => (Text.integer text).toOption.map fun timeout => { o with timeout },
    flag ["-q", "--quiet"] fun o => { o with quiet := true },
    flag ["-v", "--verbose"] id,
    valued "--loglevel" fun v o => if v.all logLevels.contains then some o else none]

/-- The options of a command. -/
def grammar : CommandName → Grammar Options
  | .check =>
    commonRules ++
      [flag ["--all"] fun o => { o with conflictsOnly := false },
        flag ["--fail-on-conflict"] fun o => { o with failOnConflict := true },
        flag ["--fail-on-direct-conflict"] fun o => { o with failOnDirectConflict := true }]
  | .list => commonRules ++ [flag ["--conflicts-only"] fun o => { o with conflictsOnly := true }]

/-- The options that stand before the command. -/
def outerGrammar : Grammar Unit :=
  [{ names := ["-h", "--help"], action := .inform }, { names := ["--version"], action := .inform }]

/-- A command with all that was asked for. -/
structure Invocation where
  command : CommandName
  model : String
  output : String
  options : Options
deriving Repr

namespace Invocation

/-- The command of a name. -/
def commandOf : String → Option CommandName
  | "check" => some .check
  | "list" => some .list
  | _ => none

/-- The file for the report: the one that is named, if any. Two hyphens name none. -/
def reportFile : List String → String
  | [] => "-"
  | name :: _ => if name = "--" then "-" else name

/-- Reads the words behind a command: the model file, and possibly the file for the report. -/
def readCommand (command : CommandName) (words : List String) : Except Leave (Invocation × Bool) := do
  let start : Options := { conflictsOnly := command == .check }
  let reading ← (grammar command).read 2 start words
  match reading.arguments with
  | model :: more =>
    return ({ command, model, output := reportFile more, options := reading.settings }, reading.hasStrayWord)
  | [] => .error .misused

/-- Reads the words from the front up to the command. Gives nothing if there is no command. -/
def readOuter : List (Word Unit) → List String → (hasStrayWord : Bool) → Except Leave (Option Invocation)
  | .unknown :: words, _ :: texts, _ => readOuter words texts true
  | .known rule tail :: words, _ :: texts, hasStrayWord =>
    match joinedOptions outerGrammar [] rule tail with
    | none => .error .misused
    | some joined =>
      match applyAll () joined.options with
      | .error leave => .error leave
      | .ok () => readOuter words texts hasStrayWord
  | .value _ :: _, text :: texts, hasStrayWord =>
    match commandOf text with
    | none => .error .misused
    | some command =>
      match readCommand command texts with
      | .error leave => .error leave
      | .ok (invocation, isStray) => if isStray || hasStrayWord then .error .misused else .ok (some invocation)
  | .separator :: _, _, _ => .error .misused
  | _, _, hasStrayWord => if hasStrayWord then .error .misused else .ok none

/-- Reads a command line. Gives nothing if it has no command. -/
def read (words : List String) : Except Leave (Option Invocation) := do
  readOuter (← outerGrammar.classify words) words false

end Invocation

/-- The configuration that the options ask for. -/
def Options.configuration (o : Options) : Except PatternFault Configuration := do
  let rules ← o.strategies.mapM fun (strategy, patterns) =>
    StrategyRule.read (some strategy) (Text.split ',' patterns)
  let waivers ← o.waivers.mapM fun (pattern, expected, resolved) =>
    Waiver.read (some pattern) (some expected) (some resolved)
  return { scope := o.scope, deepScan := o.deepScan, directOnly := o.directOnly, managedOnly := o.managedOnly,
           rules, defaultStrategy := o.defaultStrategy, waivers,
           systemMustResolve := o.systemMustResolve, conflictsOnly := o.conflictsOnly,
           failOnConflict := o.failOnConflict, failOnDirectConflict := o.failOnDirectConflict, skip := o.skip,
           includePomProjects := o.includePomProjects, quiet := o.quiet }

end VersionAudit.CommandLine
