import VersionAudit.Version.Basic

/-!
# Reading a version in one pass

A version is read in one pass over the places of its characters. Between two characters the pass remembers the lists that
are open, one inside the other, where the item begins that is pending, and of which kind the last character was that is no
separator. Where an item ends, its piece is cut out of the text and made a number or a word, as this kind says. Making a
number can fail, and then the pass ends.

1. `Member`: what a list can have. `Member.normalize`: a list without what does not count at its end.
2. `Scan`: what the pass remembers. `Scan.step`: one character. `Scan.run`: all of them, and the end.
3. `Scan.result`: the list that all was read into.
4. `Version.ofText`: the version of a text that the pass can be made over.
-/

namespace VersionAudit

/-- What a list can have at any place: a number, a word or another list. -/
inductive Member
  | number (value : Int)
  | word (text : String)
  | list (members : List Member)

namespace Member

/-! ## Normal lists -/

def isList : Member → Bool
  | .list _ => true
  | _ => false

/-- Whether a member is a zero, a release or a list of nothing. -/
def isNull : Member → Bool
  | .number value => value == 0
  | .word text => Items.wordRank text == Items.releaseRank
  | .list members => members.isEmpty

/-- The members of a list, the last one first, without null members up to the first number or word that counts. Lists
that are not empty stay, and the members before them are looked at as well. -/
def dropNull : List Member → List Member
  | [] => []
  | m :: ms =>
    if m.isNull then dropNull ms
    else if m.isList then m :: dropNull ms
    else m :: ms

/-- A list without the null members at its end, in front of lists as well. -/
def normalize (ms : List Member) : List Member :=
  (dropNull ms.reverse).reverse

/-- Closes the current list and those around it. A list is normalized, and then it is the last member of the next. -/
def close : List (List Member) → List Member → List Member
  | [], current => normalize current
  | outer :: outers, current => close outers (outer ++ [.list (normalize current)])

end Member

/-- What the pass remembers between two characters: the lists around the current one, the innermost first, and the
current one; whether the last character that is no separator was a digit; where the pending item begins; and all pieces
that were converted to numbers. -/
structure Scan where
  outer : List (List Member)
  current : List Member
  inDigits : Bool
  start : Nat
  converted : List (List Char)

namespace Scan

/-- The end of a pass at a piece that is not converted: what was remembered before it, and why. -/
structure Fault where
  before : Scan
  piece : List Char
  reason : Text.NumberFault

def initial : Scan where
  outer := []
  current := []
  inDigits := false
  start := 0
  converted := []

/-! ## Items -/

def append (s : Scan) (m : Member) : Scan :=
  { s with current := s.current ++ [m] }

/-- Opens a list at the end of the current one. -/
def descend (s : Scan) : Scan :=
  { s with outer := s.current :: s.outer, current := [] }

/-- The next item begins at a place. -/
def beginAt (s : Scan) (i : Nat) : Scan :=
  { s with start := i }

/-- The last character that is no separator was a digit, or it was none. -/
def mark (s : Scan) (digit : Bool) : Scan :=
  { s with inDigits := digit }

/-- Converts a piece to a number and appends it. -/
def convert (s : Scan) (piece : List Char) : Except Fault Scan :=
  match Text.integer (String.ofList piece) with
  | .ok value => .ok { s.append (.number value) with converted := s.converted ++ [piece] }
  | .error reason => .error ⟨s, piece, reason⟩

/-- Appends the item of a piece: a number if the last character was a digit, or else a word. -/
def appendItem (s : Scan) (piece : List Char) : Except Fault Scan :=
  if s.inDigits then s.convert piece
  else .ok (s.append (.word (Items.usualWord (String.ofList piece))))

/-- The text from the beginning of the pending item up to a place. -/
def piece (s : Scan) (text : List Char) (i : Nat) : List Char :=
  (text.take i).drop s.start

/-- Ends the pending item in front of a separator. Where none is pending, a zero is appended. -/
def separate (s : Scan) (text : List Char) (i : Nat) : Except Fault Scan :=
  if i = s.start then .ok (s.append (.number 0))
  else s.appendItem (s.piece text i)

/-! ## The pass -/

/-- Goes over the character at a place. A hyphen opens a list, and so does a change between digits and letters. -/
def step (text : List Char) (s : Scan) (c : Char) (i : Nat) : Except Fault Scan :=
  if c = '.' then
    (s.separate text i).map fun s => s.beginAt (i + 1)
  else if c = '-' then
    (s.separate text i).map fun s => s.descend.beginAt (i + 1)
  else if Items.isDigit c then
    if s.inDigits = false ∧ s.start < i then
      let word := Items.wordBeforeDigit (String.ofList (s.piece text i))
      .ok (((s.append (.word word)).descend.beginAt i).mark true)
    else .ok (s.mark true)
  else
    if s.inDigits = true ∧ s.start < i then
      (s.convert (s.piece text i)).map fun s => (s.descend.beginAt i).mark false
    else .ok (s.mark false)

/-- Ends the pending item behind the last character. -/
def finish (text : List Char) (s : Scan) : Except Fault Scan :=
  if s.start < text.length then s.appendItem (text.drop s.start) else .ok s

/-- Goes over all characters of a text. -/
def run (text : List Char) : Except Fault Scan := do
  let s ← text.zipIdx.foldlM (fun s place => s.step text place.1 place.2) initial
  s.finish text

/-- The list that all was read into. -/
def result (s : Scan) : List Member :=
  Member.close s.outer s.current

end Scan

namespace Version

/-- The pass over a version in lower case. -/
def scan (v : Version) : Except Scan.Fault Scan :=
  Scan.run (Text.lowerFrom [] v.text.toList)

/-- The version of a text that the pass can be made over. -/
def ofText (text : String) : Except Text.NumberFault Version :=
  match scan ⟨text⟩ with
  | .ok _ => .ok ⟨text⟩
  | .error fault => .error fault.reason

end Version

end VersionAudit
