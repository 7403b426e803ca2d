/-!
# Wildcards

A wildcard expression is a row of literal characters and stars. A star stands for any run of characters
without a line break, and the expression has to match the whole text.
-/

namespace VersionAudit.Text

/-- One piece of a wildcard expression. -/
inductive GlobPiece
  | star
  | literal (c : Char)
deriving Repr, DecidableEq

/-- A wildcard expression. -/
abbrev Glob := List GlobPiece

namespace Glob

/-- Reads an expression; the empty one matches like a single star. -/
def ofChars : List Char → Glob
  | [] => [.star]
  | cs => cs.map fun c => if c == '*' then .star else .literal c

/-- Reads an expression; the empty one matches like a single star. -/
def ofString (s : String) : Glob :=
  ofChars s.toList

/-- Whether some rest of the text, after a run without line breaks, is accepted by `after`. -/
def skip (after : List Char → Bool) : List Char → Bool
  | [] => after []
  | c :: cs => after (c :: cs) || (c != '\n' && skip after cs)

/-- Whether the expression matches all of the text. -/
def matchesChars : Glob → List Char → Bool
  | [], cs => cs.isEmpty
  | .literal c :: ps, cs =>
    match cs with
    | [] => false
    | x :: xs => x == c && matchesChars ps xs
  | .star :: ps, cs => skip (matchesChars ps) cs

/-- Whether the expression matches all of the text. -/
def matchesText (g : Glob) (s : String) : Bool :=
  g.matchesChars s.toList

end Glob

end VersionAudit.Text
