/-!
# Percent encoding

The encoding of a text inside an address: its UTF-8 bytes, where letters, digits, `_`, `.`, `-`, `~` and
the characters that the caller exempts stand for themselves and every other byte is written as `%` and two
hexadecimal digits.
-/

namespace VersionAudit.Text

/-- The characters that never need an escape. -/
def isUnreserved (c : Char) : Bool :=
  ('A' ≤ c && c ≤ 'Z') || ('a' ≤ c && c ≤ 'z') || ('0' ≤ c && c ≤ '9') ||
    c == '_' || c == '.' || c == '-' || c == '~'

/-- A hexadecimal digit in upper case. -/
def upperHexDigit (n : Nat) : Char :=
  if n < 10 then Char.ofNat ('0'.toNat + n) else Char.ofNat ('A'.toNat + (n - 10))

/-- A byte as `%` and two hexadecimal digits. -/
def escapeByte (b : UInt8) : List Char :=
  ['%', upperHexDigit (b.toNat / 16), upperHexDigit (b.toNat % 16)]

/-- One character, as itself if it is unreserved or exempt, else as the escapes of its bytes. -/
def percentChar (exempt : List Char) (c : Char) : List Char :=
  if isUnreserved c || exempt.contains c then [c]
  else (String.utf8EncodeChar c).flatMap escapeByte

/-- The percent encoding of a text. -/
def percentEncode (exempt : List Char) (s : String) : String :=
  String.ofList (s.toList.flatMap (percentChar exempt))

/-- The value of a hexadecimal digit in either case. -/
def hexValue? (c : Char) : Option Nat :=
  if '0' ≤ c && c ≤ '9' then some (c.toNat - '0'.toNat)
  else if 'A' ≤ c && c ≤ 'F' then some (c.toNat - 'A'.toNat + 10)
  else if 'a' ≤ c && c ≤ 'f' then some (c.toNat - 'a'.toNat + 10)
  else none

/-- The bytes that a text stands for; a `%` without two hexadecimal digits stands for itself. -/
def percentBytes : List Char → List UInt8
  | [] => []
  | '%' :: h :: l :: rest =>
    match hexValue? h, hexValue? l with
    | some a, some b => UInt8.ofNat (a * 16 + b) :: percentBytes rest
    | _, _ => String.utf8EncodeChar '%' ++ percentBytes (h :: l :: rest)
  | c :: rest => String.utf8EncodeChar c ++ percentBytes rest

/-- The text with its escapes resolved, if they resolve to UTF-8. -/
def percentDecode? (s : String) : Option String :=
  String.fromUTF8? ⟨(percentBytes s.toList).toArray⟩

end VersionAudit.Text
