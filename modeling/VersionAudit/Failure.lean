import VersionAudit.Configuration
import VersionAudit.DepsDev.Answer
import VersionAudit.Graph.Basic
import VersionAudit.Graph.Filter
import VersionAudit.Version.Range

/-!
# Failures

Why an audit stops. The faults of identities, patterns, ranges and the like have types of their own where they
arise; `Failure` gathers them with the failures of the resolution and of the audit itself.
-/

namespace VersionAudit

/-- Why a model file gives no project. -/
inductive ModelFault
  /-- The file is missing or a directory. -/
  | unreadable (location : String)
  /-- The file is not well-formed. -/
  | malformed (location : String)
  | noName (location : String)
  | noGroup (location : String)
  /-- The file of a parent is a directory. -/
  | parentIsDirectory
  /-- Parents or imports are nested deeper than they are followed. -/
  | tooDeep (location : String)
deriving Repr, DecidableEq

/-- The message of a fault. What the file system or the reader of the markup says in addition is left to a
placeholder. -/
def ModelFault.message : ModelFault → String
  | .unreadable location => "Could not read POM " ++ location ++ ": <OSError>"
  | .malformed location => "Could not read POM " ++ location ++ ": <ParseError>"
  | .noName location => "POM " ++ location ++ " has no artifactId"
  | .noGroup location => "POM " ++ location ++ " has no groupId"
  | .parentIsDirectory => "<OSError>"
  | .tooDeep location => "POM " ++ location ++ " is nested too deeply"

/-- Every reason for which an audit, or a part of it, gives no result. -/
inductive Failure
  | identity (fault : IdentityFault)
  | pattern (fault : PatternFault)
  | assignment (fault : AssignmentFault)
  | configuration (fault : ConfigurationFault)
  | unknownScope (scope : String)
  | noExclusions
  | range (fault : RangeFault)
  /-- A version has a number that is not read. -/
  | number (fault : Text.NumberFault)
  | model (fault : ModelFault)
  /-- Reading a model broke off, for the given reason. -/
  | undecodable (reason : String)
  /-- The model of an artifact is not known to the resolver. -/
  | unknownModel (artifact : Artifact)
  | unresolved (dependencies : List Dependency)
  /-- The version specification of a direct dependency does not admit the resolved version. -/
  | inconsistent (dependency : Dependency) (resolved : String)
  /-- A dependency of the resolution is hidden by its own filter. -/
  | hidden (dependency : Dependency) (node : Node)
  /-- A reported artifact is not in the graph of the project. -/
  | unselected (name : Identity) (project : Project)
  /-- An answer of the package service cannot be read. -/
  | malformedAnswer (fault : DepsDev.AnswerFault)
  /-- An edge leads to a node that is not there. -/
  | danglingEdge
  /-- Something that nothing requests was asked for the given part of its request. -/
  | unrequested (part : String)
  /-- A dependency to recover is not among the unresolved ones. -/
  | notUnresolved
  /-- Failed parts of an audit: messages, and the dependencies that could not be resolved. -/
  | incomplete (messages : List String) (dependencies : List String)
  | directConflict
  | transitiveConflict
  /-- A package address needs a name. -/
  | unnamedPackage
  /-- Nothing is left of the name in a package address, which may have no group before it either. -/
  | namelessAddress (hasNoGroup : Bool)

namespace Failure

/-- Whether a model could not be read. A directory in the place of a parent's file is a failure of another kind. -/
def isUnreadableModel : Failure → Bool
  | .unknownModel _ => true
  | .model .parentIsDirectory => false
  | .model _ => true
  | _ => false

/-- The texts without repetitions, in order of first occurrence. -/
def distinctTexts (texts : List String) : List String :=
  texts.foldl (fun kept t => if kept.contains t then kept else kept ++ [t]) []

/-- The failure of an audit whose parts failed, each message and each dependency named once. -/
def ofParts (messages dependencies : List String) : Failure :=
  .incomplete (distinctTexts messages) (distinctTexts dependencies)

/-- The text for the failed parts of an audit. -/
def incompleteMessage (messages dependencies : List String) : String :=
  let told := String.intercalate "    \n" messages
  if dependencies.isEmpty then told
  else
    (if told = "" then told else told ++ "\n") ++ "Could not resolve dependencies: [" ++
      String.intercalate ", " dependencies ++ "]"

/-- The message of a failure. -/
def message : Failure → String
  | .identity fault => fault.message
  | .pattern fault => fault.message
  | .assignment fault => fault.message
  | .configuration fault => fault.message
  | .unknownScope scope => "Scope '" ++ scope ++ "' is unknown!"
  | .noExclusions => "exclusions is None"
  | .range fault => fault.message
  | .number fault => fault.message
  | .model fault => fault.message
  | .undecodable reason => reason
  | .unknownModel artifact => "Could not read model for " ++ artifact.coordinates
  | .unresolved dependencies =>
    "Could not resolve the following dependencies: " ++ Text.quotedList (dependencies.map (·.text))
  | .inconsistent dependency resolved =>
    "Cannot determine the recommended version of dependency '" ++ dependency.text ++
      "'; its version specification is '" ++ dependency.artifact.baseVersion ++
      "', and the resolved version is '" ++ resolved ++ "'."
  | .hidden dependency node =>
    "Dependency " ++ dependency.text ++ " maps to " ++ node.text ++
      ", but scope filter would exclude it. This should never happen!"
  | .unselected name project =>
    "Dependency " ++ name.fullName ++ " has no selected version in " ++ project.text
  | .malformedAnswer fault => fault.message
  | .danglingEdge => "list index out of range"
  | .unrequested part => "'NoneType' object has no attribute '" ++ part ++ "'"
  | .notUnresolved => "list.remove(x): x not in list"
  | .incomplete messages dependencies => incompleteMessage messages dependencies
  | .directConflict => "Version conflict in direct dependencies detected!"
  | .transitiveConflict => "Version conflict in transitive dependencies detected!"
  | .unnamedPackage => "Invalid purl: name is a required argument."
  | .namelessAddress hasNoGroup =>
    "sequence item " ++ (if hasNoGroup then "4" else "6") ++ ": expected str instance, NoneType found"

end Failure

namespace Filter

/-- The filter for what is visible in a scope. -/
def visible (scope : String) : Except Failure Filter :=
  match visibleIn scope with
  | some f => .ok f
  | none => .error (.unknownScope scope)

/-- The filter for what a dependency in some scope passes on. -/
def passedOn (scope : String) : Except Failure Filter :=
  match passedOnBy scope with
  | some f => .ok f
  | none => .error (.unknownScope scope)

end Filter

end VersionAudit
