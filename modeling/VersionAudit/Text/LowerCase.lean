import VersionAudit.Text.LetterCase

/-!
# Lower case

Lower-casing of texts. A capital sigma at the end of a word becomes a final sigma, and the dotted capital I
keeps its dot as a combining character; every other letter is mapped on its own.
-/

namespace VersionAudit.Text

/-- Whether the next character of the word, if any, is a cased letter. -/
def wordContinues (cs : List Char) : Bool :=
  match cs.dropWhile isCaseIgnorable with
  | c :: _ => isCased c
  | [] => false

/-- Lower-cases a text; `before` holds the characters already read, the latest first. -/
def lowerFrom (before : List Char) : List Char → List Char
  | [] => []
  | c :: rest =>
    let small :=
      if c == 'Σ' then [if wordContinues before && !wordContinues rest then 'ς' else 'σ']
      else if c == 'İ' then ['i', '\u0307']
      else [smallLetter c]
    small ++ lowerFrom (c :: before) rest

/-- The text in lower case. -/
def lower (s : String) : String :=
  String.ofList (lowerFrom [] s.toList)

end VersionAudit.Text
