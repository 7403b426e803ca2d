import VersionAudit.Json.Basic
import VersionAudit.Text.Quoted

/-!
# Writing JSON

A value as text, in ASCII and with one item or field a line.

1. `Json.escaped`: a text between quotes. What is not visible ASCII is written by code units of UTF-16.
2. `Json.render`: a value, nested ones indented by two blanks a level.
-/

namespace VersionAudit.Json

/-! ## Texts -/

/-- A code unit as an escape of four digits. -/
def unitEscape (n : Nat) : List Char :=
  '\\' :: 'u' :: Text.hexDigits 4 n

/-- The code units of a character: one, or a pair of surrogates. -/
def unitsOf (c : Char) : List Nat :=
  let n := c.toNat
  if n < 0x10000 then [n] else [0xD800 + (n - 0x10000) / 0x400, 0xDC00 + (n - 0x10000) % 0x400]

/-- A character inside quotes. -/
def escapeChar (c : Char) : List Char :=
  if c == '"' || c == '\\' then ['\\', c]
  else if c == '\n' then ['\\', 'n']
  else if c == '\r' then ['\\', 'r']
  else if c == '\t' then ['\\', 't']
  else if c == '\x08' then ['\\', 'b']
  else if c == '\x0c' then ['\\', 'f']
  else if ' ' ≤ c && c ≤ '~' then [c]
  else (unitsOf c).flatMap unitEscape

/-- A text in quotes. -/
def escaped (s : String) : String :=
  String.ofList ('"' :: s.toList.flatMap escapeChar ++ ['"'])

/-! ## Numbers -/

/-- A number; the point stands before its last `places` digits. -/
def decimal (mantissa : Int) (places : Nat) : String :=
  if places = 0 then toString mantissa
  else
    let digits := (toString mantissa.natAbs).toList
    let digits := List.replicate (places + 1 - digits.length) '0' ++ digits
    let whole := digits.take (digits.length - places)
    let fraction := digits.drop (digits.length - places)
    (if mantissa < 0 then "-" else "") ++ String.ofList whole ++ "." ++ String.ofList fraction

/-! ## Values -/

/-- The character that opens an object. -/
def openingBrace : Char := '\x7b'

/-- The character that closes an object. -/
def closingBrace : Char := '\x7d'

/-- Parts between brackets, one a line; nothing between the brackets if there are none. -/
def bracketed (opening closing : Char) (indent : Nat) : List String → String
  | [] => String.ofList [opening, closing]
  | parts =>
    let margin := String.ofList ('\n' :: List.replicate (indent + 2) ' ')
    String.ofList [opening] ++ margin ++ String.intercalate ("," ++ margin) parts ++
      String.ofList ('\n' :: List.replicate indent ' ') ++ String.ofList [closing]

mutual

/-- A value whose first line is indented already. -/
def renderAt (indent : Nat) : Json → String
  | .null => "null"
  | .bool b => if b then "true" else "false"
  | .number mantissa places => decimal mantissa places
  | .string s => escaped s
  | .array items => bracketed '[' ']' indent (renderItems (indent + 2) items)
  | .object fields => bracketed openingBrace closingBrace indent (renderFields (indent + 2) fields)

/-- The items of an array. -/
def renderItems (indent : Nat) : List Json → List String
  | [] => []
  | item :: items => renderAt indent item :: renderItems indent items

/-- The fields of an object. -/
def renderFields (indent : Nat) : List (String × Json) → List String
  | [] => []
  | (name, value) :: fields => (escaped name ++ ": " ++ renderAt indent value) :: renderFields indent fields

end

/-- A value as text. -/
def render (j : Json) : String :=
  renderAt 0 j

end VersionAudit.Json
