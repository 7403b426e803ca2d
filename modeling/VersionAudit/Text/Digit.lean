import VersionAudit.Text.Blank
import VersionAudit.Text.Quoted
import VersionAudit.Text.Split

/-!
# Decimal digits

Two notions of digit. The ordering of versions knows `0` to `9` only; the numbered components of a
version may be written in the decimal digits of any script.
-/

namespace VersionAudit.Text

/-- The number written by a run of the digits `0` to `9`, most significant digit first. -/
def numeralValue (cs : List Char) : Nat :=
  cs.foldl (fun n c => n * 10 + (c.toNat - '0'.toNat)) 0

/-- The zeros of the scripts with decimal digits; nine more digits follow each of them. -/
def scriptZeros : List Nat :=
  [0x30, 0x660, 0x6F0, 0x7C0, 0x966, 0x9E6, 0xA66, 0xAE6, 0xB66, 0xBE6, 0xC66, 0xCE6, 0xD66, 0xDE6,
   0xE50, 0xED0, 0xF20, 0x1040, 0x1090, 0x17E0, 0x1810, 0x1946, 0x19D0, 0x1A80, 0x1A90, 0x1B50,
   0x1BB0, 0x1C40, 0x1C50, 0xA620, 0xA8D0, 0xA900, 0xA9D0, 0xA9F0, 0xAA50, 0xABF0, 0xFF10, 0x104A0,
   0x10D30, 0x11066, 0x110F0, 0x11136, 0x111D0, 0x112F0, 0x11450, 0x114D0, 0x11650, 0x116C0,
   0x11730, 0x118E0, 0x11950, 0x11C50, 0x11D50, 0x11DA0, 0x16A60, 0x16AC0, 0x16B50, 0x1D7CE,
   0x1D7D8, 0x1D7E2, 0x1D7EC, 0x1D7F6, 0x1E140, 0x1E2F0, 0x1E950, 0x1FBF0]

/-- The value of a decimal digit of any script. -/
def digitValue? (c : Char) : Option Nat :=
  (scriptZeros.find? fun start => start ≤ c.toNat && c.toNat < start + 10).map (c.toNat - ·)

/-- The number written by a run of decimal digits of any script, if the text is such a run. -/
def decimal? (cs : List Char) : Option Nat :=
  if cs.isEmpty then none
  else cs.foldlM (fun n c => (digitValue? c).map (n * 10 + ·)) 0

/-! ## Whole numbers -/

/-- The most digits that a number is read from. -/
def digitLimit : Nat := 4300

/-- Why no number is read from a text. -/
inductive NumberFault
  | malformed (text : String)
  /-- There are more digits than numbers are read from. -/
  | tooLong (digits : Nat)
deriving Repr, DecidableEq

/-- The message of a fault. -/
def NumberFault.message : NumberFault → String
  | .malformed text => "invalid literal for int() with base 10: " ++ quoted text
  | .tooLong digits =>
    "Exceeds the limit (" ++ toString digitLimit ++ " digits) for integer string conversion: value has " ++
      toString digits ++ " digits; use sys.set_int_max_str_digits() to increase the limit"

/-- A decimal digit of any script or an underscore. -/
def isNumeric (c : Char) : Bool :=
  c == '_' || (digitValue? c).isSome

/-- The number written by decimal digits of any script with single underscores between them. The digits are counted before
anything behind them is looked at. -/
def magnitude (s : String) (cs : List Char) : Except NumberFault Nat :=
  let groups := splitChars '_' (cs.takeWhile isNumeric)
  let digits := groups.flatten
  if groups.any List.isEmpty then .error (.malformed s)
  else if digitLimit < digits.length then .error (.tooLong digits.length)
  else
    match decimal? digits, cs.dropWhile isNumeric with
    | some n, [] => .ok n
    | _, _ => .error (.malformed s)

/-- The whole number written by a text: decimal digits of any script, single underscores between them, a sign
before them and blanks around all of it. -/
def integer (s : String) : Except NumberFault Int :=
  match trimChars s.toList with
  | '-' :: cs => (magnitude s cs).map fun n => -(n : Int)
  | '+' :: cs => (magnitude s cs).map fun n => (n : Int)
  | cs => (magnitude s cs).map fun n => (n : Int)

end VersionAudit.Text
