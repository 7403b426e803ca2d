import VersionAudit.Report.Entry

/-!
# Reports as text

1. `checkReport`: one headline an artifact, and below it every expected version with its requesters.
2. `listReport`: one line an artifact in columns, with the expected versions that were not selected.
3. `sections`: the reports of several projects, each under the name of its project.
-/

namespace VersionAudit.Report

/-- The largest of some widths, zero if there are none. -/
def widest (widths : List Nat) : Nat :=
  widths.foldl max 0

/-- Texts one a line, the last line ended as well; nothing for no text. -/
def lines : List String → String
  | [] => ""
  | texts => String.intercalate "\n" texts ++ "\n"

/-! ## Check report -/

/-- A requester; the project itself is marked by stars. -/
def requester (r : Request) : String :=
  if r.direct then "*" ++ r.requester.shortName ++ "*" else r.requester.shortName

/-- The headline of an artifact. -/
def headline (e : Entry) : String :=
  e.name.shortName ++ ": " ++ e.resolved.text ++ " (" ++ (if e.direct then "direct" else "transitive") ++
    (if e.managed then ", managed" else "") ++ ") - scope: " ++ e.scope ++ " - strategy: " ++ e.strategy

/-- The line of an expected version. -/
def expectation (width : Nat) (g : RequestGroup) : String :=
  "       " ++ Text.padRight (width + 1) g.expected.text ++ "expected by " ++
    String.intercalate ", " (g.requests.map requester)

/-- The lines of an artifact. -/
def checkEntry (e : Entry) : String :=
  let width := widest (e.groups.map (·.expected.text.length))
  String.intercalate "\n" (headline e :: e.groups.map (expectation width))

/-- The check report. -/
def checkReport (entries : List Entry) : String :=
  lines (entries.map checkEntry)

/-! ## List report -/

/-- An expected version that was not selected, marked if it is in conflict or expected by the project. -/
def unselectedVersion (g : RequestGroup) : String :=
  if g.hasConflict then "!" ++ g.expected.text ++ "!"
  else if g.isDirect then "*" ++ g.expected.text ++ "*"
  else g.expected.text

/-- The line of an artifact. -/
def listEntry (nameWidth scopeWidth : Nat) (e : Entry) : String :=
  Text.padRight (nameWidth + 2) (e.name.shortName ++ ": ") ++ Text.padRight (scopeWidth + 1) e.scope ++
    e.resolved.text ++
    (match e.unselected with
    | [] => ""
    | groups => " (" ++ String.intercalate ", " (groups.map unselectedVersion) ++ ")")

/-- The list report. -/
def listReport (entries : List Entry) : String :=
  lines (entries.map
    (listEntry (widest (entries.map (·.name.width))) (widest (entries.map (·.scope.length)))))

/-! ## Several projects -/

/-- A report for all projects: that of the only project, or one under the name of each project. -/
def sections (report : List Entry → String) : List (Project × List Entry) → String
  | [(_, entries)] => report entries
  | reports =>
    String.intercalate "\n" (reports.map fun (p, entries) => p.text ++ ":\n" ++ report entries)

end VersionAudit.Report
