import VersionAudit.OrderedMap
import VersionAudit.Text.Split

/-!
# Properties

A value refers to a property by its name in braces behind a dollar sign. References are replaced one after the
other, the first in the text first, and a property's value may hold further ones. A reference to an unknown
property, an unfinished one, or too many of them leave the value without a meaning.
-/

namespace VersionAudit.Pom

/-- The values of properties. -/
abbrev Properties := OrderedMap String String

/-- What a text holds in the way of references. -/
inductive Reference
  /-- No reference. -/
  | absent
  /-- One that does not end. -/
  | unfinished
  /-- The first one: the text before it, its name, and the text behind it. -/
  | found (front name back : List Char)
deriving Repr, DecidableEq

/-- The character that opens the name of a reference. -/
def openingBrace : Char := '\x7b'

/-- The character that closes the name of a reference. -/
def closingBrace : Char := '\x7d'

/-- The first reference in a text. -/
def Reference.first : List Char → Reference
  | [] => .absent
  | c :: cs =>
    if c == '$' && cs.head? == some openingBrace then
      match Text.cut closingBrace cs.tail with
      | (name, some back) => .found [] name back
      | (_, none) => .unfinished
    else
      match first cs with
      | .found front name back => .found (c :: front) name back
      | other => other

/-- Replaces references while there are any, at most `limit` of them. -/
def expand (properties : Properties) : (limit : Nat) → List Char → Option (List Char)
  | 0, cs =>
    match Reference.first cs with
    | .absent => some cs
    | _ => none
  | limit + 1, cs =>
    match Reference.first cs with
    | .absent => some cs
    | .unfinished => none
    | .found front name back =>
      match properties.find? (String.ofList name) with
      | none => none
      | some value => expand properties limit (front ++ value.toList ++ back)

/-- The number of references that are replaced in one value. -/
def usualLimit : Nat := 10

/-- The meaning of a value. -/
def resolve (properties : Properties) (value : String) (limit : Nat := usualLimit) : Option String :=
  (expand properties limit value.toList).map String.ofList

/-- The meaning of a value that may be missing. -/
def resolve? (properties : Properties) (value : Option String) : Option String :=
  value.bind fun v => resolve properties v

end VersionAudit.Pom
