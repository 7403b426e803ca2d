import VersionAudit.Text.Blank
import VersionAudit.Text.Split
import VersionAudit.Version.Basic

/-!
# Version ranges

What a declaration asks for: either one recommended version, which any other may replace, or a set of
intervals such as `[1.0,2.0)` or `(,1.0],[1.2,)`.

1. `Interval`: a part of the order, each end open, closed or missing.
2. `VersionRange.read`: from a specification to the versions it asks for, or the fault in it.
3. `VersionRange.select`: the published versions that a range admits, in ascending order.
-/

namespace VersionAudit

/-- One interval of versions. A missing bound does not bound. -/
structure Interval where
  lower : Option Version := none
  lowerInclusive : Bool := false
  upper : Option Version := none
  upperInclusive : Bool := false
deriving Repr, Inhabited

namespace Interval

/-- The interval that holds every version. -/
def everything : Interval := {}

/-- Whether a version is not below the lower bound. -/
def aboveLower (i : Interval) (v : Version) : Bool :=
  match i.lower with
  | none => true
  | some bound =>
    match v.compare bound with
    | .lt => false
    | .eq => i.lowerInclusive
    | .gt => true

/-- Whether a version is not above the upper bound. -/
def belowUpper (i : Interval) (v : Version) : Bool :=
  match i.upper with
  | none => true
  | some bound =>
    match v.compare bound with
    | .lt => true
    | .eq => i.upperInclusive
    | .gt => false

/-- Whether a version lies in the interval. -/
def contains (i : Interval) (v : Version) : Bool :=
  i.aboveLower v && i.belowUpper v

end Interval

/-- The faults of a version specification. -/
inductive RangeFault
  | empty
  | unbounded (spec : String)
  | overlapping (spec : String)
  | mixed (spec : String)
  | unbracketed (interval : String)
  | reversed (interval : String)
deriving Repr, DecidableEq

/-- The message of a fault. -/
def RangeFault.message : RangeFault → String
  | .empty => "Version specification is empty"
  | .unbounded spec => "Unbounded range: " ++ spec
  | .overlapping spec => "Ranges overlap: " ++ spec
  | .mixed spec => "Only fully-qualified sets allowed in multiple set scenario: " ++ spec
  | .unbracketed interval => "Single version must be surrounded by []: " ++ interval
  | .reversed interval => "Range defies version ordering: " ++ interval

/-- What a specification asks for. -/
inductive Requirement
  | recommended (version : Version)
  | intervals (parts : List Interval)
deriving Repr

/-- A specification with what it asks for. -/
structure VersionRange where
  text : String
  requirement : Requirement
deriving Repr

namespace VersionRange

/-- A version written between the ends of an interval; a blank one is no bound. -/
def bound? (cs : List Char) : Option Version :=
  match Text.trimChars cs with
  | [] => none
  | cs => some ⟨String.ofList cs⟩

/-- Reads one interval, from its opening to its closing bracket. -/
def readInterval (spec : List Char) : Except RangeFault Interval :=
  let lowerInclusive := spec.head? == some '['
  let upperInclusive := spec.getLast? == some ']'
  let inside := Text.trimChars (spec.drop 1).dropLast
  match Text.cut ',' inside with
  | (single, none) =>
    if lowerInclusive && upperInclusive then
      let version : Version := ⟨String.ofList single⟩
      .ok ⟨some version, true, some version, true⟩
    else .error (.unbracketed (String.ofList spec))
  | (low, some high) =>
    let lower := bound? low
    let upper := bound? high
    match lower, upper with
    | some l, some u =>
      if u.before l then .error (.reversed (String.ofList spec))
      else .ok ⟨lower, lowerInclusive, upper, upperInclusive⟩
    | _, _ => .ok ⟨lower, lowerInclusive, upper, upperInclusive⟩

/-- Splits off the text up to and with the first closing bracket of either form. -/
def cutInterval : List Char → Option (List Char × List Char)
  | [] => none
  | c :: cs =>
    if c == ')' || c == ']' then some ([c], cs)
    else (cutInterval cs).map fun (front, rest) => (c :: front, rest)

/-- The text after an interval without blanks and without the comma to the next one. -/
def afterInterval (cs : List Char) : List Char :=
  match Text.trimChars cs with
  | ',' :: rest => Text.trimChars rest
  | rest => rest

/-- Whether an interval starts below the upper bound of the interval before it. -/
def overlaps (previous : Option Version) (next : Interval) : Bool :=
  match previous with
  | none => false
  | some upper =>
    match next.lower with
    | none => true
    | some lower => lower.before upper

/-- Reads the intervals at the front of a text. Gives them with the text behind them; `previous` is the
upper bound of the interval before, and `fuel` bounds the number of intervals. -/
def readIntervals (spec : String) : (fuel : Nat) → (previous : Option Version) → List Char →
    Except RangeFault (List Interval × List Char)
  | 0, _, cs => .ok ([], cs)
  | fuel + 1, previous, cs =>
    if cs.head? == some '[' || cs.head? == some '(' then
      match cutInterval cs with
      | none => .error (.unbounded spec)
      | some (front, rest) => do
        let interval ← readInterval front
        if overlaps previous interval then .error (.overlapping spec)
        else
          let (more, left) ← readIntervals spec fuel interval.upper (afterInterval rest)
          .ok (interval :: more, left)
    else .ok ([], cs)

/-- Reads a specification. -/
def read (spec : String) : Except RangeFault VersionRange := do
  let cs := Text.trimChars spec.toList
  if cs.isEmpty then .error .empty
  else
    let (intervals, rest) ← readIntervals spec (cs.length + 1) none cs
    match rest, intervals with
    | [], _ => .ok ⟨spec, .intervals intervals⟩
    | rest, [] => .ok ⟨spec, .recommended ⟨String.ofList rest⟩⟩
    | _, _ => .error (.mixed spec)

/-- The recommended version, if one is asked for. -/
def recommended (r : VersionRange) : Option Version :=
  match r.requirement with
  | .recommended v => some v
  | .intervals _ => none

/-- The intervals asked for; a recommendation admits everything. -/
def intervals (r : VersionRange) : List Interval :=
  match r.requirement with
  | .recommended _ => [.everything]
  | .intervals parts => parts

/-- Whether a set of intervals is asked for. -/
def isRange (r : VersionRange) : Bool :=
  r.recommended.isNone

/-- Whether a version meets the specification; a recommendation is met by an equal version. -/
def contains (r : VersionRange) (v : Version) : Bool :=
  match r.requirement with
  | .recommended w => w == v
  | .intervals parts => parts.any (·.contains v)

/-- The candidates that the specification admits in ascending order; a recommendation admits itself. -/
def select (r : VersionRange) (candidates : List Version) : List Version :=
  match r.requirement with
  | .recommended v => [v]
  | .intervals _ => Version.sort (candidates.filter r.contains)

end VersionRange

end VersionAudit
