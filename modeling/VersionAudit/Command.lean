import VersionAudit.Report.Text

/-!
# The two commands

1. `check`: reports the conflicts of every project. `CheckResult.verdict` says whether they are a failure.
2. `list`: shows the selected version of every artifact next to the versions it displaced.
-/

namespace VersionAudit

/-- The reports of the projects that were checked, and what kinds of conflict they show. -/
structure CheckResult where
  reports : List (Project × List Entry) := []
  directConflicts : Bool := false
  transitiveConflicts : Bool := false
deriving Inhabited

namespace CheckResult

/-- All reported entries. -/
def entries (r : CheckResult) : List Entry :=
  r.reports.flatMap (·.2)

/-- Adds what an entry shows. -/
def record (r : CheckResult) (e : Entry) : CheckResult :=
  if e.hasConflict then
    { r with
      directConflicts := r.directConflicts || e.direct
      transitiveConflicts := r.transitiveConflicts || !e.direct }
  else r

/-- Conflicts of direct dependencies fail if any or direct ones are to fail, others only if any are. -/
def verdict (r : CheckResult) (c : Configuration) : Except Failure Unit :=
  if r.directConflicts && (c.failOnConflict || c.failOnDirectConflict) then .error .directConflict
  else if r.transitiveConflicts && c.failOnConflict then .error .transitiveConflict
  else .ok ()

end CheckResult

namespace Command

variable {σ : Type}

/-- The part of a headline that the two commands share. -/
def extent (c : Configuration) : String :=
  (if c.deepScan then " using deep scan" else "") ++ " for '" ++ c.scope ++ "' scope" ++
    (if c.conflictsOnly then ", reporting only conflicts" else "")

/-- What a check tells about itself. -/
def checkHeadline (c : Configuration) : String :=
  "Checking " ++ (if c.directOnly then "direct" else "all") ++ (if c.managedOnly then ", managed" else "") ++
    " dependencies" ++ extent c

/-- What a list tells about itself. -/
def listHeadline (c : Configuration) : String :=
  (if c.directOnly then "Direct" else "All") ++ (if c.managedOnly then " managed" else "") ++
    " dependencies" ++ extent c ++ ":"

/-- Whether an entry makes the check fail. -/
def fails (c : Configuration) (e : Entry) : Bool :=
  e.hasConflict && (c.failOnConflict || (e.direct && c.failOnDirectConflict))

/-- How serious an entry is. -/
def levelOf (c : Configuration) (e : Entry) : Level :=
  if fails c e then .error else if e.hasConflict then .warning else .info

/-- Checks one project. -/
def checkProject (resolver : Resolver σ) (registry : Registry) (c : Configuration) (reactor : List Project)
    (r : CheckResult) (p : Project) : Step σ CheckResult := do
  match ← analyze resolver registry c reactor p with
  | none => return r
  | some a =>
    progress c (checkHeadline c)
    let entries ← Step.ofExcept (a.entries (a.selected c))
    for e in entries do
      Step.note (levelOf c e) .command (Report.checkEntry e)
    return entries.foldl CheckResult.record { r with reports := r.reports ++ [(p, entries)] }

/-- Checks all projects of a build. -/
def check (resolver : Resolver σ) (registry : Registry) (c : Configuration) (projects : List Project) :
    Step σ CheckResult :=
  projects.foldlM (checkProject resolver registry c projects) {}

/-- Lists one project. A project that is skipped has no report. -/
def listProject (resolver : Resolver σ) (registry : Registry) (c : Configuration) (reactor : List Project)
    (p : Project) : Step σ (Option (Project × List Entry)) := do
  match ← analyze resolver registry c reactor p with
  | none => return none
  | some a =>
    progress c (listHeadline c)
    let entries ← Step.ofExcept (a.entries (a.selected c))
    if !entries.isEmpty then
      Step.note .info .command (Report.listReport entries)
    return some (p, entries)

/-- Lists all projects of a build. -/
def list (resolver : Resolver σ) (registry : Registry) (c : Configuration) (projects : List Project) :
    Step σ (List (Project × List Entry)) :=
  projects.filterMapM (listProject resolver registry c projects)

end Command

end VersionAudit
