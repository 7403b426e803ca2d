/-!
# JSON values

The values that a package service answers with and that a bill of materials is written in.
-/

namespace VersionAudit

/-- A JSON value. A number is `mantissa` with `places` of its digits after the point. -/
inductive Json
  | null
  | bool (b : Bool)
  | number (mantissa : Int) (places : Nat)
  | string (s : String)
  | array (items : List Json)
  | object (fields : List (String × Json))
deriving Repr, Inhabited, BEq

namespace Json

/-- A whole number. -/
def int (n : Int) : Json := .number n 0

/-- A field of an object. -/
def field? (j : Json) (name : String) : Option Json :=
  match j with
  | .object fields => fields.lookup name
  | _ => none

/-- The text of a string. -/
def string? : Json → Option String
  | .string s => some s
  | _ => none

/-- A whole number, if it is one. -/
def int? : Json → Option Int
  | .number mantissa 0 => some mantissa
  | _ => none

end Json

end VersionAudit
