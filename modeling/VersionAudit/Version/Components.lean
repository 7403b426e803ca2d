import VersionAudit.Text.Digit
import VersionAudit.Text.Split

/-!
# The components of a version

The decomposition of a version by the scheme `major.minor.incremental-build` or
`major.minor.incremental-qualifier`. A text that does not fit the scheme is kept as a qualifier, all numbers
being zero.
-/

namespace VersionAudit

/-- The components of a version. -/
structure Components where
  major : Nat := 0
  minor : Nat := 0
  incremental : Nat := 0
  build : Nat := 0
  qualifier : Option String := none
deriving Repr, DecidableEq

namespace Components

/-- The largest number that counts as a component. -/
def limit : Nat := 2147483647

/-- A component number: decimal digits of any script, not above the limit. -/
def number? (cs : List Char) : Option Nat :=
  (Text.decimal? cs).filter (· ≤ limit)

/-- A component number without a leading zero. -/
def plainNumber? : List Char → Option Nat
  | '0' :: _ :: _ => none
  | cs => number? cs

/-- The numbers before the hyphen, and the fourth piece if there is one. -/
structure Front where
  major : Nat := 0
  minor : Nat := 0
  incremental : Nat := 0
  fourth : Option (List Char) := none
deriving Repr, DecidableEq

/-- Reads up to three numbers and a fourth piece that is no number. -/
def front? : List (List Char) → Option Front
  | [] => some {}
  | [a] => do
    return { major := ← plainNumber? a }
  | [a, b] => do
    return { major := ← plainNumber? a, minor := ← plainNumber? b }
  | [a, b, c] => do
    return { major := ← plainNumber? a, minor := ← plainNumber? b, incremental := ← plainNumber? c }
  | [a, b, c, d] => do
    let front : Front :=
      { major := ← plainNumber? a, minor := ← plainNumber? b, incremental := ← plainNumber? c,
        fourth := some d }
    if (Text.decimal? d).isSome then none else some front
  | _ => none

/-- Whether a point stands at an end of the text or beside another point. -/
def hasStrayPoint (cs : List Char) : Bool :=
  (Text.splitChars '.' cs).any List.isEmpty && cs.contains '.'

/-- What follows the hyphen: a build number, or a qualifier. -/
def build? : List Char → Option Nat
  | '0' :: _ :: _ => none
  | cs => number? cs

/-- The components of a version. -/
def ofChars (version : List Char) : Components :=
  let (front, back) := Text.cut '-' version
  let whole : Components := { qualifier := some (String.ofList version) }
  let build : Nat := ((back.bind build?).getD 0)
  let qualifier : Option String :=
    back.bind fun cs => if (build? cs).isSome then none else some (String.ofList cs)
  if !front.contains '.' && !(front.head? == some '0') then
    match number? front with
    | some major => { major, build, qualifier }
    | none => whole
  else
    match front? ((Text.splitChars '.' front).filter (!·.isEmpty)) with
    | some found =>
      if hasStrayPoint front then whole
      else
        { major := found.major, minor := found.minor, incremental := found.incremental, build,
          qualifier := (found.fourth.map String.ofList).or qualifier }
    | none => whole

/-- The components of a version. -/
def ofString (version : String) : Components :=
  ofChars version.toList

end Components

end VersionAudit
