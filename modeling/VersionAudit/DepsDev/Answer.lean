import VersionAudit.Json.Basic

/-!
# Answers of the package service

What can be taken from an answer: a field of an object, the items of a list, a name. What an answer leaves out
has a usual value, but a value of the wrong kind is a fault of the answer.

1. `AnswerFault`: the value found, and what is needed in its place.
2. `fieldOf`, `itemsOf`, `nameOf`: each gives what is needed or names the fault.
-/

namespace VersionAudit.DepsDev

/-- A value of the wrong kind in an answer. -/
inductive AnswerFault
  /-- An object is needed. -/
  | notObject (found : Json)
  /-- A list is needed. -/
  | notList (found : Json)
  /-- The name of a package is needed. -/
  | notName (found : Json)
deriving Repr

namespace AnswerFault

/-- What messages call the kind of a value. -/
def kindName : Json → String
  | .null => "NoneType"
  | .bool _ => "bool"
  | .number _ 0 => "int"
  | .number _ _ => "float"
  | .string _ => "str"
  | .array _ => "list"
  | .object _ => "dict"

/-- The message of a fault. -/
def message : AnswerFault → String
  | .notObject found => "'" ++ kindName found ++ "' object has no attribute 'get'"
  | .notList found => "'" ++ kindName found ++ "' object is not iterable"
  | .notName found => "'" ++ kindName found ++ "' object has no attribute 'partition'"

end AnswerFault

/-- Whether a value holds nothing: it is null, false, zero or empty. -/
def isVacant : Json → Bool
  | .null => true
  | .bool b => !b
  | .number mantissa _ => mantissa == 0
  | .string s => s.isEmpty
  | .array items => items.isEmpty
  | .object fields => fields.isEmpty

/-- A field of an object, or its usual value if the object does not have it. -/
def fieldOf (name : String) (usual : Json) : Json → Except AnswerFault Json
  | .object fields => .ok ((fields.lookup name).getD usual)
  | found => .error (.notObject found)

/-- The items of a list. A text is a list of its characters, and an object one of the names of its fields. -/
def itemsOf : Json → Except AnswerFault (List Json)
  | .array items => .ok items
  | .string s => .ok (s.toList.map fun c => .string (String.singleton c))
  | .object fields => .ok (fields.map fun f => .string f.1)
  | found => .error (.notList found)

/-- The name of a package. -/
def nameOf : Json → Except AnswerFault String
  | .string s => .ok s
  | found => .error (.notName found)

end VersionAudit.DepsDev
