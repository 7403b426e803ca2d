import VersionAudit.Json.Basic
import VersionAudit.Text.Digit
import VersionAudit.Text.Percent

/-!
# Reading JSON

1. `Json.takeText`: a text, from behind its opening quote.
2. `Json.takeNumber`: a number, as a whole number with a count of decimal places.
3. `Json.read`: a whole document.
-/

namespace VersionAudit.Json

/-- White space between the parts of a document. -/
def isGap (c : Char) : Bool :=
  c == ' ' || c == '\t' || c == '\r' || c == '\n'

/-- The document behind the white space at its front. -/
def skipGap (cs : List Char) : List Char :=
  cs.dropWhile isGap

/-! ## Texts -/

/-- The code point of a character that stands behind a backslash. -/
def escapeCode? (c : Char) : Option Nat :=
  match c with
  | '"' => some 0x22
  | '\\' => some 0x5C
  | '/' => some 0x2F
  | 'b' => some 0x08
  | 'f' => some 0x0C
  | 'n' => some 0x0A
  | 'r' => some 0x0D
  | 't' => some 0x09
  | _ => none

/-- The number of some hexadecimal digits. -/
def hexCode? (digits : List Char) : Option Nat :=
  digits.foldlM (fun n c => (Text.hexValue? c).map (n * 16 + ·)) 0

/-- The codes of a text up to its closing quote: code points, or code units of UTF-16 where they are written as
escapes. -/
def takeCodes : List Char → Option (List Nat × List Char)
  | [] => none
  | '"' :: rest => some ([], rest)
  | '\\' :: 'u' :: a :: b :: c :: d :: rest => do
    let code ← hexCode? [a, b, c, d]
    let (more, rest) ← takeCodes rest
    return (code :: more, rest)
  | '\\' :: c :: rest => do
    let code ← escapeCode? c
    let (more, rest) ← takeCodes rest
    return (code :: more, rest)
  | c :: rest =>
    if c.toNat < 0x20 then none
    else do
      let (more, rest) ← takeCodes rest
      return (c.toNat :: more, rest)

/-- The character of a code. Half a pair of surrogates is no character; the mark for what cannot be shown stands
in its place. -/
def charOf (code : Nat) : Char :=
  if 0xD800 ≤ code && code < 0xE000 then '\uFFFD' else Char.ofNat code

/-- The characters of codes. A pair of surrogates is one character. -/
def charsOf : List Nat → List Char
  | high :: low :: rest =>
    if 0xD800 ≤ high && high < 0xDC00 && 0xDC00 ≤ low && low < 0xE000 then
      Char.ofNat (0x10000 + (high - 0xD800) * 0x400 + (low - 0xDC00)) :: charsOf rest
    else charOf high :: charsOf (low :: rest)
  | [code] => [charOf code]
  | [] => []

/-- Reads a text, from behind its opening quote. -/
def takeText (cs : List Char) : Option (String × List Char) := do
  let (codes, rest) ← takeCodes cs
  return (String.ofList (charsOf codes), rest)

/-! ## Numbers -/

/-- Digits at the front of a document, at least one of them. -/
def takeDigits (cs : List Char) : Option (List Char × List Char) :=
  match cs.span fun c => '0' ≤ c && c ≤ '9' with
  | ([], _) => none
  | found => some found

/-- The digits before the point: a single zero, or digits that begin with no zero. -/
def takeWhole (cs : List Char) : Option (List Char × List Char) := do
  let (digits, rest) ← takeDigits cs
  match digits with
  | '0' :: _ :: _ => none
  | _ => some (digits, rest)

/-- The digits behind the point, if there is a point. -/
def takeFraction : List Char → Option (List Char × List Char)
  | '.' :: rest => takeDigits rest
  | cs => some ([], cs)

/-- The power of ten, if one is given. -/
def takePower : List Char → Option (Int × List Char)
  | c :: rest =>
    if c == 'e' || c == 'E' then
      match rest with
      | '-' :: rest => (takeDigits rest).map fun (digits, rest) => (-(Text.numeralValue digits : Int), rest)
      | '+' :: rest => (takeDigits rest).map fun (digits, rest) => ((Text.numeralValue digits : Int), rest)
      | rest => (takeDigits rest).map fun (digits, rest) => ((Text.numeralValue digits : Int), rest)
    else some (0, c :: rest)
  | [] => some (0, [])

/-- A number with a power of ten, as a value. -/
def scaled (mantissa : Int) (places : Nat) (power : Int) : Json :=
  if power ≤ places then .number mantissa (places - power).toNat
  else .number (mantissa * (Nat.pow 10 (power - places).toNat : Nat)) 0

/-- Reads a number without its sign. -/
def takeMagnitude (sign : Int) (cs : List Char) : Option (Json × List Char) := do
  let (whole, rest) ← takeWhole cs
  let (fraction, rest) ← takeFraction rest
  let (power, rest) ← takePower rest
  return (scaled (sign * Text.numeralValue (whole ++ fraction)) fraction.length power, rest)

/-- Reads a number. -/
def takeNumber : List Char → Option (Json × List Char)
  | '-' :: rest => takeMagnitude (-1) rest
  | cs => takeMagnitude 1 cs

/-! ## Values -/

/-- Reads a word that stands for a value. -/
def takeWord (word : String) (value : Json) (cs : List Char) : Option (Json × List Char) :=
  if word.toList.isPrefixOf cs then some (value, cs.drop word.length) else none

/-- Reads the name of a field with the colon behind it. -/
def takeFieldName (cs : List Char) : Option (String × List Char) :=
  match skipGap cs with
  | '"' :: rest => do
    let (name, rest) ← takeText rest
    match skipGap rest with
    | ':' :: rest => some (name, rest)
    | _ => none
  | _ => none

/-- The fields without those whose name comes again. -/
def lastOfEachName (fields : List (String × Json)) : List (String × Json) :=
  fields.foldr (fun f kept => if kept.any (·.1 == f.1) then kept else f :: kept) []

mutual

/-- Reads a value. -/
def takeValue : (fuel : Nat) → List Char → Option (Json × List Char)
  | 0, _ => none
  | fuel + 1, cs =>
    match skipGap cs with
    | [] => none
    | c :: rest =>
      if c == '"' then (takeText rest).map fun (s, rest) => (.string s, rest)
      else if c == '[' then
        match skipGap rest with
        | ']' :: rest => some (.array [], rest)
        | rest => (takeItems fuel rest).map fun (items, rest) => (.array items, rest)
      else if c == '\x7b' then
        match skipGap rest with
        | '\x7d' :: rest => some (.object [], rest)
        | rest => (takeFields fuel rest).map fun (fields, rest) => (.object (lastOfEachName fields), rest)
      else if c == 'n' then takeWord "null" .null (c :: rest)
      else if c == 't' then takeWord "true" (.bool true) (c :: rest)
      else if c == 'f' then takeWord "false" (.bool false) (c :: rest)
      else takeNumber (c :: rest)

/-- Reads the items of an array with the bracket behind them. -/
def takeItems : (fuel : Nat) → List Char → Option (List Json × List Char)
  | 0, _ => none
  | fuel + 1, cs => do
    let (first, rest) ← takeValue fuel cs
    match skipGap rest with
    | ',' :: rest => (takeItems fuel rest).map fun (more, rest) => (first :: more, rest)
    | ']' :: rest => some ([first], rest)
    | _ => none

/-- Reads the fields of an object with the brace behind them. -/
def takeFields : (fuel : Nat) → List Char → Option (List (String × Json) × List Char)
  | 0, _ => none
  | fuel + 1, cs => do
    let (name, rest) ← takeFieldName cs
    let (value, rest) ← takeValue fuel rest
    match skipGap rest with
    | ',' :: rest => (takeFields fuel rest).map fun (more, rest) => ((name, value) :: more, rest)
    | '\x7d' :: rest => some ([(name, value)], rest)
    | _ => none

end

/-- The value of a document. Every two steps take at least one character, which bounds their number. -/
def read (document : String) : Option Json := do
  let cs := document.toList
  let (value, rest) ← takeValue (2 * cs.length + 2) cs
  if (skipGap rest).isEmpty then some value else none

end VersionAudit.Json
