import VersionAudit.CommandLine.SavedAnswers

/-!
# The program

Reads the files below and above the working directory and the saved answers of the services, runs the command
line on them, and shows or writes what comes out.
-/

namespace VersionAudit.Program

open CommandLine

/-- How the program is called. -/
def usage : String :=
  "usage: depversions [--help] [--version] (check | list) pom [output] [options]"

/-- The variable that names the directory of saved answers. -/
def answersVariable : String := "DEPVERSIONS_ANSWERS"

/-- A path as a place. -/
def place (path : String) : Location :=
  (Location.mk []).join path

/-- The content of a file, empty if it cannot be read. -/
def contentOf (path : String) : IO ByteArray := do
  try IO.FS.readBinFile path catch _ => pure .empty

/-- Whether the content of a file can matter: that of a model, and of a file named on the command line. -/
def isOfInterest (arguments : List Location) (path : String) : Bool :=
  Text.endsWith ".xml" path || Text.endsWith ".pom" path || arguments.contains (place path)

/-- All that is below a directory. Hidden directories are left out. -/
partial def filesBelow (arguments : List Location) (path : String) : IO (List (Location × FileNode)) := do
  let entries ← (System.mkFilePath [path]).readDir
  let mut found := [(place path, FileNode.directory)]
  for entry in entries do
    let inner := path ++ "/" ++ entry.fileName
    if ← entry.path.isDir then
      if !Text.startsWith "." entry.fileName then
        found := found ++ (← filesBelow arguments inner)
    else
      let content ← if isOfInterest arguments inner then contentOf inner else pure .empty
      found := found ++ [(place inner, .file content)]
  return found

/-- The models in the directories above a place. -/
def modelsAbove (working : Location) : IO (List (Location × FileNode)) := do
  let mut found := []
  for count in List.range working.segments.length do
    let model := (Location.mk (working.segments.take count)).child "pom.xml"
    if ← (System.mkFilePath [model.text]).pathExists then
      found := found ++ [(model, FileNode.file (← contentOf model.text))]
  return found

/-- The files that the program sees. -/
def loadFiles (arguments : List String) : IO FileTree := do
  let path := (← IO.currentDir).toString
  let working := place path
  let named := arguments.map working.join
  return { working, nodes := (← filesBelow named path) ++ (← modelsAbove working) }

/-- The saved answers. -/
def loadAnswers : IO SavedAnswers := do
  match ← IO.getEnv answersVariable with
  | none => return {}
  | some path =>
    let mut files := []
    for entry in ← (System.mkFilePath [path]).readDir do
      files := files ++ [(entry.fileName, ← contentOf (path ++ "/" ++ entry.fileName))]
    return ⟨files⟩

/-- Shows and writes the result of a run. -/
def publish (d : Done) : IO UInt32 := do
  if let some page := d.shown then
    IO.print page.render
  if let some (location, page) := d.written then
    IO.FS.writeFile location.text page.render
  if let some complaint := d.complaint then
    IO.eprintln complaint
  return if d.isSuccess then 0 else 1

/-- Runs the program on a command line and gives its exit status. -/
def execute (arguments : List String) : IO UInt32 := do
  let files ← loadFiles arguments
  let answers ← loadAnswers
  match (run answers.services files arguments ()).1 with
  | .left .answered =>
    IO.println usage
    return 0
  | .left .misused =>
    IO.eprintln usage
    return 2
  | .help =>
    IO.println usage
    return 1
  | .done d => publish d

end VersionAudit.Program

/-- The program. -/
def main (arguments : List String) : IO UInt32 :=
  VersionAudit.Program.execute arguments
