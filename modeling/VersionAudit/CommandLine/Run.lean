import VersionAudit.Command
import VersionAudit.CommandLine.Options
import VersionAudit.DepsDev.Resolver
import VersionAudit.Json.Printer
import VersionAudit.Pom.Reactor
import VersionAudit.Report.Bill

/-!
# Running a command

A run reads the model file with its modules, audits the projects, shows or writes the report and, for a check,
gives its verdict. It is a function of the command line, the files and what the services answer.
-/

namespace VersionAudit.CommandLine

/-- The services a run asks, over one state, and what writes its bills of materials. -/
structure Services (σ : Type) where
  repository : Pom.Repository σ
  transport : DepsDev.Transport σ
  library : Report.Library

/-- A report, ready to be written. -/
inductive Page
  | text (content : String)
  | bill (document : Json)
deriving Repr

/-- The page as it is shown or written. -/
def Page.render : Page → String
  | .text content => content
  | .bill document => document.render ++ "\n"

/-- What a run leaves behind. -/
structure Done where
  isSuccess : Bool
  /-- The report, if it is shown. -/
  shown : Option Page := none
  /-- The report with the file that holds it, if it is written to one. -/
  written : Option (Location × Page) := none
  /-- What went wrong. -/
  complaint : Option String := none

/-- How the program ends. -/
inductive Ending
  /-- It left while reading its command line. -/
  | left (reason : Leave)
  /-- It showed its usage, for want of a command. -/
  | help
  | done (result : Done)

/-- The reports of a run, and what is to be said about them at last. -/
structure Findings where
  reports : List (Project × List Entry)
  verdict : Except Failure Unit

variable {σ : Type}

/-- Audits projects with a command. -/
def audit (command : CommandName) (resolver : Resolver σ) (c : Configuration) (projects : List Project) :
    Step σ Findings := do
  let registry : Registry := .ofList []
  match command with
  | .check =>
    let result ← Command.check resolver registry c projects
    return ⟨result.reports, result.verdict c⟩
  | .list => return ⟨← Command.list resolver registry c projects, .ok ()⟩

/-- The text report of a command. -/
def textReport : CommandName → List Entry → String
  | .check => Report.checkReport
  | .list => Report.listReport

/-- The report in the form that is asked for. -/
def page (lib : Report.Library) (i : Invocation) (words : List String) (reports : List (Project × List Entry)) :
    Except Failure Page :=
  match i.options.format with
  | .text => .ok (.text (Report.sections (textReport i.command) reports))
  | .sbom =>
    (Report.document lib (reports.map (·.1)) (reports.flatMap (·.2)) (String.intercalate " " words)).map .bill

/-- The complaint about a failure. That the file of a parent is a directory is reported like a file that cannot
be written. A strategy lacks its name only if the value of the default strategy was left out. -/
def complaintOf : Failure → String
  | .assignment .unnamed => "Error: 'list' object has no attribute 'lower'"
  | .model .parentIsDirectory => "Error writing output: " ++ ModelFault.parentIsDirectory.message
  | failure => "Error: " ++ failure.message

/-- The end of a run that failed. -/
def failed (failure : Failure) : Done :=
  { isSuccess := false, complaint := some (complaintOf failure) }

/-- Shows or writes a report, and then gives the verdict. -/
def deliver (files : FileTree) (output : String) (p : Page) (verdict : Except Failure Unit) : Done :=
  let last (d : Done) : Done :=
    match verdict with
    | .ok () => d
    | .error failure => { d with isSuccess := false, complaint := some (complaintOf failure) }
  if output = "-" then last { isSuccess := true, shown := some p }
  else
    match files.canWrite output with
    | some place => last { isSuccess := true, written := some (place, p) }
    | none => { isSuccess := false, complaint := some "Error writing output: <OSError>" }

/-- The projects of a build, and the state behind them. -/
def loadProjects (s : Services σ) (files : FileTree) (path : String) (state : σ) :
    Except Failure (List Project) × σ :=
  let source : Pom.Source σ := { files, repository := s.repository }
  let (result, l) := (source.readReactor path).run ⟨{ repository := state }, []⟩
  (result, l.state.repository)

/-- The findings of an audit, and the state behind it. -/
def auditProjects (s : Services σ) (i : Invocation) (c : Configuration) (projects : List Project) (state : σ) :
    Except Failure Findings × σ :=
  let resolver := DepsDev.resolver s.transport i.options.timeout
  let (result, l) := (audit i.command resolver c projects).run ⟨{ transport := state }, []⟩
  (result, l.state.transport)

/-- Runs a command. -/
def runCommand (s : Services σ) (files : FileTree) (words : List String) (i : Invocation) (state : σ) :
    Done × σ :=
  match i.options.configuration with
  | .error fault => (failed (.pattern fault), state)
  | .ok c =>
    match loadProjects s files i.model state with
    | (.error failure, state) => (failed failure, state)
    | (.ok projects, state) =>
      match auditProjects s i c projects state with
      | (.error failure, state) => (failed failure, state)
      | (.ok findings, state) =>
        match page s.library i words findings.reports with
        | .error failure => (failed failure, state)
        | .ok p => (deliver files i.output p findings.verdict, state)

/-- Runs the program. -/
def run (s : Services σ) (files : FileTree) (words : List String) (state : σ) : Ending × σ :=
  match Invocation.read words with
  | .error reason => (.left reason, state)
  | .ok none => (.help, state)
  | .ok (some i) =>
    let (done, state) := runCommand s files words i state
    (.done done, state)

end VersionAudit.CommandLine
