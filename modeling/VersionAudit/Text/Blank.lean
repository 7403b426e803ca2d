/-!
# Blank characters

The characters that count as white space around names, patterns, versions and property values, and the
removal of such characters from both ends of a text.
-/

namespace VersionAudit.Text

/-- White space: the control characters that separate lines, fields and columns, and every Unicode
space, line and paragraph separator. -/
def isBlank (c : Char) : Bool :=
  let n := c.toNat
  (0x09 ≤ n && n ≤ 0x0D) || (0x1C ≤ n && n ≤ 0x20) || n == 0x85 || n == 0xA0 || n == 0x1680 ||
    (0x2000 ≤ n && n ≤ 0x200A) || n == 0x2028 || n == 0x2029 || n == 0x202F || n == 0x205F ||
    n == 0x3000

/-- The text without the blanks at its front. -/
def trimFront (cs : List Char) : List Char :=
  cs.dropWhile isBlank

/-- The text without the blanks at either end. -/
def trimChars (cs : List Char) : List Char :=
  (trimFront (trimFront cs).reverse).reverse

/-- The text without the blanks at either end. -/
def trim (s : String) : String :=
  String.ofList (trimChars s.toList)

/-- A text of which nothing is left once the blanks are removed. -/
def isBlankText (s : String) : Bool :=
  s.toList.all isBlank

end VersionAudit.Text
