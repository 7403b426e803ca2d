import VersionAudit.Text.Split

/-!
# File trees

The files and directories that a program sees, as a value.

1. `Location`: a place in the tree, from the top.
2. `FileTree`: what is at which place, and where the program works.
3. `FileTree.walk`: the place that a path leads to, step by step through directories that exist.
   `Location.join` finds it without looking.
-/

namespace VersionAudit

/-- A place in a tree: the names on the way from the top. -/
structure Location where
  segments : List String
deriving Repr, DecidableEq, Inhabited

namespace Location

/-- The place as a path. -/
def text (l : Location) : String :=
  "/" ++ String.intercalate "/" l.segments

/-- The place that holds this one; the top holds itself. -/
def parent (l : Location) : Location :=
  ⟨l.segments.dropLast⟩

/-- A place directly below. -/
def child (l : Location) (name : String) : Location :=
  ⟨l.segments ++ [name]⟩

/-- One step of a path: to stay, to go up or to go down. -/
def step (l : Location) (name : String) : Location :=
  if name = "" ∨ name = "." then l else if name = ".." then l.parent else l.child name

/-- Where a path starts. -/
def start (working : Location) (path : String) : Location :=
  if Text.startsWith "/" path then ⟨[]⟩ else working

/-- The place that a path names, seen from here. -/
def join (l : Location) (path : String) : Location :=
  (Text.split '/' path).foldl step (l.start path)

/-- Whether a place is this one or lies below it. -/
def holds (l inner : Location) : Bool :=
  l.segments.isPrefixOf inner.segments

end Location

/-- What is at a place. -/
inductive FileNode
  | file (content : ByteArray)
  | directory

/-- Whether it is a directory. -/
def FileNode.isDirectory : FileNode → Bool
  | directory => true
  | file _ => false

/-- The files and directories that are there, and the directory the program works in. A directory is also
every place on the way to another one. -/
structure FileTree where
  nodes : List (Location × FileNode)
  working : Location

namespace FileTree

/-- The content of a file. -/
def content? (t : FileTree) (l : Location) : Option ByteArray :=
  match t.nodes.lookup l with
  | some (.file content) => some content
  | _ => none

/-- Whether a directory is at a place. -/
def isDirectory (t : FileTree) (l : Location) : Bool :=
  l.holds t.working || (t.nodes.lookup l).any FileNode.isDirectory ||
    t.nodes.any fun n => l.holds n.1 && n.1 != l

/-- Whether anything is at a place. -/
def isThere (t : FileTree) (l : Location) : Bool :=
  (t.content? l).isSome || t.isDirectory l

/-- Goes down a path; every step has to start from a directory. -/
def walkFrom (t : FileTree) (l : Location) : List String → Option Location
  | [] => some l
  | name :: names => if t.isDirectory l then t.walkFrom (l.step name) names else none

/-- The place that a path leads to, if the way there exists. -/
def walk (t : FileTree) (path : String) : Option Location :=
  if path = "" then none else t.walkFrom (t.working.start path) (Text.split '/' path)

/-- Whether a file can be written at the end of a path. -/
def canWrite (t : FileTree) (path : String) : Option Location :=
  (t.walk path).filter fun l => !t.isDirectory l

/-- The file of a place: the place itself, or its `pom.xml` if it is a directory. -/
def modelAt (t : FileTree) (l : Location) : Location :=
  if t.isDirectory l then l.child "pom.xml" else l

end FileTree

end VersionAudit
