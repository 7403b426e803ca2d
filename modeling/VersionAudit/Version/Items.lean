import VersionAudit.Text.Digit

/-!
# The items of a version

A version is compared item by item. A point separates the numbers and words of one level; a hyphen, and
every change between digits and other characters, opens a level of its own, which takes the rest of the
version. So each level is a row of numbers and words with at most one deeper level at its end, and that is
what the type `Items` says.

1. `Items.read`: from the characters of a version to its items.
2. `Items.normal`: without the items at the end of each level that do not count.
3. `Items.compare`: the order of versions.
4. `Items.canonical`: the normal items as text, the key under which versions are grouped.
-/

namespace VersionAudit

/-- The items of one level of a version. -/
inductive Items
  | done
  | number (value : Nat) (rest : Items)
  | word (text : String) (rest : Items)
  | nested (inner : Items)
deriving Repr, DecidableEq

namespace Items

/-! ## Words -/

/-- The known words before and after a release, in ascending order. The empty word is the release. -/
def knownWords : List String :=
  ["alpha", "beta", "milestone", "rc", "snapshot", "", "sp"]

/-- A word under its usual name: the words for a release are the empty word. -/
def usualWord (text : String) : String :=
  if text = "ga" ∨ text = "final" ∨ text = "release" then ""
  else if text = "cr" then "rc"
  else text

/-- A single letter directly before a digit stands for a whole word. -/
def wordBeforeDigit (text : String) : String :=
  if text = "a" then "alpha"
  else if text = "b" then "beta"
  else if text = "m" then "milestone"
  else usualWord text

/-- The place of a word in the order: known words by their place in the list, all others behind them by
their text. -/
def wordRank (text : String) : Nat × String :=
  match knownWords.idxOf? text with
  | some i => (i, "")
  | none => (knownWords.length, text)

/-- The place of the release. -/
def releaseRank : Nat × String := (5, "")

/-- The order of two places. -/
def compareRank (a b : Nat × String) : Ordering :=
  (compare a.1 b.1).then (compare a.2 b.2)

/-! ## Reading -/

/-- The characters read since the last item, the latest first. -/
inductive Run
  | empty
  | digits (rev : List Char)
  | letters (rev : List Char)
deriving Repr, DecidableEq

/-- The item that a run ends in when a separator or the end of the version follows. Between two separators
stands a zero. -/
def Run.item : Run → Items → Items
  | .empty, rest => .number 0 rest
  | .digits rev, rest => .number (Text.numeralValue rev.reverse) rest
  | .letters rev, rest => .word (usualWord (String.ofList rev.reverse)) rest

/-- The digits `0` to `9`. -/
def isDigit (c : Char) : Bool :=
  '0' ≤ c && c ≤ '9'

/-- Reads the rest of a version, `run` being what was read since the last item. -/
def readFrom (run : Run) : List Char → Items
  | [] =>
    match run with
    | .empty => .done
    | run => run.item .done
  | c :: cs =>
    if c == '.' then run.item (readFrom .empty cs)
    else if c == '-' then run.item (.nested (readFrom .empty cs))
    else if isDigit c then
      match run with
      | .empty => readFrom (.digits [c]) cs
      | .digits rev => readFrom (.digits (c :: rev)) cs
      | .letters rev =>
        .word (wordBeforeDigit (String.ofList rev.reverse)) (.nested (readFrom (.digits [c]) cs))
    else
      match run with
      | .empty => readFrom (.letters [c]) cs
      | .letters rev => readFrom (.letters (c :: rev)) cs
      | .digits rev =>
        .number (Text.numeralValue rev.reverse) (.nested (readFrom (.letters [c]) cs))

/-- The items of a version in lower case. -/
def read (cs : List Char) : Items :=
  readFrom .empty cs

/-! ## Normal form -/

/-- Whether no number and no word follows on this level. -/
def atEnd : Items → Bool
  | .done => true
  | .nested _ => true
  | _ => false

/-- A number in front of normal items, left out if it is a zero at the end of its level. -/
def consNumber (value : Nat) (rest : Items) : Items :=
  if value = 0 ∧ rest.atEnd then rest else .number value rest

/-- A word in front of normal items, left out if it is a release at the end of its level. -/
def consWord (text : String) (rest : Items) : Items :=
  if text = "" ∧ rest.atEnd then rest else .word text rest

/-- A level below the current one, left out if nothing is in it. -/
def nest : Items → Items
  | .done => .done
  | inner => .nested inner

/-- The items without zeros and releases at the end of a level, also in front of a deeper level, and
without empty levels. -/
def normal : Items → Items
  | .done => .done
  | .number value rest => consNumber value rest.normal
  | .word text rest => consWord text rest.normal
  | .nested inner => nest inner.normal

/-! ## Order -/

/-- The first item of a level against nothing. -/
def compareFirst : Items → Ordering
  | .done => .eq
  | .number value _ => if value = 0 then .eq else .gt
  | .word text _ => compareRank (wordRank text) releaseRank
  | .nested inner => inner.compareFirst

/-- A row of items against nothing: the first item that counts decides. -/
def compareNothing : Items → Ordering
  | .done => .eq
  | .number value rest => if value = 0 then rest.compareNothing else .gt
  | .word text rest => (compareRank (wordRank text) releaseRank).then rest.compareNothing
  | .nested inner => inner.compareFirst

/-- The order of versions by their items. A number is above a word and above a deeper level, and a deeper
level is above a word; where one side has ended, the other is compared with nothing. -/
protected def compare : Items → Items → Ordering
  | .done, right => right.compareNothing.swap
  | .number a as, right =>
    match right with
    | .done => if a = 0 then as.compareNothing else .gt
    | .number b bs => (Ord.compare a b).then (as.compare bs)
    | .word _ _ => .gt
    | .nested _ => .gt
  | .word a as, right =>
    match right with
    | .done => (compareRank (wordRank a) releaseRank).then as.compareNothing
    | .number _ _ => .lt
    | .word b bs => (compareRank (wordRank a) (wordRank b)).then (as.compare bs)
    | .nested _ => .lt
  | .nested as, right =>
    match right with
    | .done => as.compareFirst
    | .number _ _ => .lt
    | .word _ _ => .gt
    | .nested bs => as.compare bs

/-! ## Canonical text -/

/-- Writes a level after the text already written for it. -/
def writeAfter (written : String) : Items → String
  | .done => written
  | .number value rest =>
    rest.writeAfter (if written = "" then toString value else written ++ "." ++ toString value)
  | .word text rest => rest.writeAfter (if written = "" then text else written ++ "." ++ text)
  | .nested inner =>
    if written = "" then inner.writeAfter "" else written ++ "-" ++ inner.writeAfter ""

/-- The items as text: points between the items of a level and a hyphen before a deeper level. -/
def canonical (items : Items) : String :=
  items.writeAfter ""

end Items

end VersionAudit
