/-!
# Taking texts apart

Cutting a text at the first or at every occurrence of a character.
-/

namespace VersionAudit.Text

/-- The text before the first separator, and the text after it if there is one. -/
def cut (sep : Char) : List Char → List Char × Option (List Char)
  | [] => ([], none)
  | c :: cs =>
    if c == sep then ([], some cs)
    else
      let (front, back) := cut sep cs
      (c :: front, back)

/-- The pieces of a text between the separators; a text without any is one piece. -/
def splitChars (sep : Char) : List Char → List (List Char)
  | [] => [[]]
  | c :: cs =>
    if c == sep then [] :: splitChars sep cs
    else
      match splitChars sep cs with
      | [] => [[c]]
      | piece :: pieces => (c :: piece) :: pieces

/-- The pieces of a text between the separators; a text without any is one piece. -/
def split (sep : Char) (s : String) : List String :=
  (splitChars sep s.toList).map String.ofList

/-- Whether the text starts with the given front. -/
def startsWith (front : String) (s : String) : Bool :=
  front.toList.isPrefixOf s.toList

/-- Whether the text ends with the given back. -/
def endsWith (back : String) (s : String) : Bool :=
  back.toList.isSuffixOf s.toList

/-- The text filled up with blanks on its right to the given number of characters. -/
def padRight (width : Nat) (s : String) : String :=
  String.ofList (s.toList ++ List.replicate (width - s.toList.length) ' ')

end VersionAudit.Text
