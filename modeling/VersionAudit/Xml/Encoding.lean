import VersionAudit.Xml.Document

/-!
# Documents as bytes

A document says by its first bytes, or in its declaration, how its bytes stand for characters.

1. `Encoding`: ways in which they do. `Encoding.decode?`: the characters of a document.
2. `Encoding.find?`: the encoding of a document.
3. `Element.ofBytes`: from the bytes of a document to its root.
-/

namespace VersionAudit.Xml

/-- How bytes stand for characters. -/
inductive Encoding
  | utf8
  | utf16 (bigEndian : Bool)
  /-- One byte for each character: the ASCII characters, and these ones for the other half of the bytes, zero for none. -/
  | bytewise (upper : List Nat)
deriving Repr, DecidableEq

namespace Encoding

/-! ## Encodings -/

/-- Latin-1, where each byte is the code point of its character. -/
def latin1 : Encoding :=
  .bytewise (List.range' 0x80 0x80)

/-- Latin-1 with the euro and seven letters. -/
def latin9 : Encoding :=
  .bytewise ((List.range' 0x80 0x80).map fun n =>
    ([(0xA4, 0x20AC), (0xA6, 0x160), (0xA8, 0x161), (0xB4, 0x17D), (0xB8, 0x17E), (0xBC, 0x152), (0xBD, 0x153),
      (0xBE, 0x178)].lookup n).getD n)

/-- Latin-1 with punctuation and letters in the place of control characters. -/
def windows1252 : Encoding :=
  .bytewise ([0x20AC, 0, 0x201A, 0x192, 0x201E, 0x2026, 0x2020, 0x2021, 0x2C6, 0x2030, 0x160, 0x2039, 0x152, 0,
    0x17D, 0, 0, 0x2018, 0x2019, 0x201C, 0x201D, 0x2022, 0x2013, 0x2014, 0x2DC, 0x2122, 0x161, 0x203A, 0x153, 0,
    0x17E, 0x178] ++ List.range' 0xA0 0x60)

/-- The ASCII characters, and no others. -/
def ascii : Encoding :=
  .bytewise []

/-- The encodings of one byte for each character, by their names. -/
def known : List (String × Encoding) :=
  ["iso8859_1", "iso_8859_1", "iso_8859_1_1987", "iso_ir_100", "latin", "latin1", "latin_1", "l1", "cp819", "ibm819",
    "csisolatin1", "iso8859"].map (·, latin1) ++
  ["iso8859_15", "iso_8859_15", "latin9", "l9"].map (·, latin9) ++
  ["cp1252", "windows_1252"].map (·, windows1252) ++
  -- any name of UTF-8 but its usual one is taken for an encoding of single bytes
  ["ascii", "us_ascii", "us", "ansi_x3.4_1968", "ansi_x3_4_1968", "ansi_x3.4_1986", "cp367", "ibm367", "csascii",
    "iso646_us", "iso_646.irv_1991", "iso_ir_6", "utf8", "utf_8", "u8", "utf", "utf8_ucs2", "utf8_ucs4", "cp65001",
    "utf_8_sig"].map (·, ascii)

/-- A name in small letters: its runs of letters, digits and points, with an underscore between two of them. -/
def plainName (name : String) : String :=
  let counts (c : Char) : Bool := c.isAlphanum || c == '.'
  let pieces := (name.toList.map Char.toLower).splitBy fun c d => counts c == counts d
  String.intercalate "_" ((pieces.filter (·.all counts)).map String.ofList)

/-! ## Characters -/

/-- The character of a code point, if it is one. -/
def char? (n : Nat) : Option Char :=
  if (Char.ofNat n).toNat = n then some (Char.ofNat n) else none

/-- Characters of one or two code units each. -/
def decodeUnits? : List Nat → Option (List Char)
  | [] => some []
  | [u] => (char? u).map ([·])
  | u :: v :: rest =>
    if 0xD800 ≤ u ∧ u < 0xDC00 then
      if 0xDC00 ≤ v ∧ v < 0xE000 then do
        return (← char? (0x10000 + (u - 0xD800) * 0x400 + (v - 0xDC00))) :: (← decodeUnits? rest)
      else none
    else do return (← char? u) :: (← decodeUnits? (v :: rest))

/-- Two bytes each as one code unit. -/
def units? (bigEndian : Bool) : List UInt8 → Option (List Nat)
  | [] => some []
  | [_] => none
  | a :: b :: rest =>
    (units? bigEndian rest).map
      ((if bigEndian then a.toNat * 256 + b.toNat else b.toNat * 256 + a.toNat) :: ·)

/-- The characters that bytes stand for. -/
def decode? (e : Encoding) (bytes : List UInt8) : Option (List Char) :=
  match e with
  | .utf8 => (String.fromUTF8? ⟨bytes.toArray⟩).map (·.toList)
  | .utf16 bigEndian => (units? bigEndian bytes).bind decodeUnits?
  | .bytewise upper =>
    bytes.mapM fun b =>
      if b.toNat < 0x80 then some (Char.ofNat b.toNat)
      else (upper[b.toNat - 0x80]?.filter (· ≠ 0)).bind char?

/-! ## The encoding of a document -/

/-- The encoding that the first bytes tell, and the bytes behind a mark for it. -/
def detect : List UInt8 → Encoding × List UInt8
  | 0xEF :: 0xBB :: 0xBF :: rest => (.utf8, rest)
  | 0xFE :: 0xFF :: rest => (.utf16 true, rest)
  | 0xFF :: 0xFE :: rest => (.utf16 false, rest)
  | 0x3C :: 0x00 :: rest => (.utf16 false, 0x3C :: 0x00 :: rest)
  | 0x00 :: 0x3C :: rest => (.utf16 true, 0x00 :: 0x3C :: rest)
  | bytes => (.utf8, bytes)

/-- What the name in a declaration says of bytes that began with some encoding. It has to agree with that in the size of
its units. -/
def named? (start : Encoding) (name : String) : Except String (Option Encoding) :=
  let small := String.ofList (name.toList.map Char.toLower)
  let single := if small = "utf-8" then some .utf8 else known.lookup (plainName name)
  match start with
  | .utf16 bigEndian =>
    if small = "utf-16" ∨ small = (if bigEndian then "utf-16be" else "utf-16le") then .ok (some start)
    else if single.isSome ∨ ["utf-16be", "utf-16le"].contains small then .ok none
    else .error ("unknown encoding: " ++ name)
  | _ =>
    if single.isSome ∨ ["utf-16", "utf-16be", "utf-16le"].contains small then .ok single
    else .error ("unknown encoding: " ++ name)

/-- The encoding of bytes that begin with a given one, or none if the declaration is not well-formed or contradicts it. -/
def find? (start : Encoding) (bytes : List UInt8) : Except String (Option Encoding) :=
  -- the declaration itself has ASCII characters only, so the bytes of any encoding will do
  let front := match start with
    | .utf16 bigEndian => (units? bigEndian (bytes.take (bytes.length / 2 * 2))).map (List.map Char.ofNat)
    | _ => latin1.decode? bytes
  match front.bind takeDeclaration with
  | none => .ok none
  | some (none, _) => .ok (some start)
  | some (some name, _) => start.named? name

end Encoding

/-- The root of a document, or none if the document is not well-formed. -/
def Element.ofBytes (document : ByteArray) : Except String (Option Element) := do
  let (start, bytes) := Encoding.detect document.data.toList
  match ← start.find? bytes with
  | none => return none
  | some encoding =>
    match encoding.decode? bytes with
    | none => return none
    | some characters => Element.read characters

end VersionAudit.Xml
