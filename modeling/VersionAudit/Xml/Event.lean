import VersionAudit.Xml.Name

/-!
# Events of a document

A document read from front to back: tags, text, comments and instructions. Reading fails on anything that is not
well-formed on its own; whether tags match and names are declared is left to the tree.

1. `Event`: what a document consists of.
2. `takeReference`, `takeTag` and the like: one construct at the front of a text.
3. `Event.read`: all events of a document.
-/

namespace VersionAudit.Xml

/-- A part of a document. Comments and processing instructions leave no trace. -/
inductive Event
  | opening (name : QName) (attributes : List (QName × String)) (isEmpty : Bool)
  | closing (name : QName)
  /-- Text; `plain` says that it is written out, without references and not in a section of its own. -/
  | text (content : List Char) (plain : Bool)
  /-- A document type. Nothing is read behind one that begins declarations of its own. -/
  | doctype (hasDeclarations : Bool)
deriving Repr

/-! ## Characters -/

/-- White space between the parts of a construct. -/
def isSpace (c : Char) : Bool :=
  c == ' ' || c == '\t' || c == '\r' || c == '\n'

/-- The characters a document may hold. -/
def isAllowed (c : Char) : Bool :=
  (0x20 ≤ c.toNat && c.toNat ≠ 0xFFFE && c.toNat ≠ 0xFFFF) || c == '\t' || c == '\r' || c == '\n'

/-- The text with every line break written as a line feed. -/
def normalizeBreaks : List Char → List Char
  | '\r' :: '\n' :: cs => '\n' :: normalizeBreaks cs
  | '\r' :: cs => '\n' :: normalizeBreaks cs
  | c :: cs => c :: normalizeBreaks cs
  | [] => []

/-- The text without the white space at its front. -/
def skipSpace (cs : List Char) : List Char :=
  cs.dropWhile isSpace

/-- The text behind an expected front. -/
def expect? (front : String) (cs : List Char) : Option (List Char) :=
  if front.toList.isPrefixOf cs then some (cs.drop front.length) else none

/-- Splits a text at the first occurrence of a mark. -/
def takeUntil (mark : List Char) : List Char → Option (List Char × List Char)
  | [] => none
  | c :: cs =>
    if mark.isPrefixOf (c :: cs) then some ([], (c :: cs).drop mark.length)
    else (takeUntil mark cs).map fun (front, rest) => (c :: front, rest)

/-! ## References -/

/-- The value of a digit in some base up to sixteen. -/
def digit? (base : Nat) (c : Char) : Option Nat :=
  let value :=
    if '0' ≤ c && c ≤ '9' then some (c.toNat - '0'.toNat)
    else if 'a' ≤ c && c ≤ 'f' then some (c.toNat - 'a'.toNat + 10)
    else if 'A' ≤ c && c ≤ 'F' then some (c.toNat - 'A'.toNat + 10)
    else none
  value.filter (· < base)

/-- The character of a code point written in some base. -/
def codeChar? (base : Nat) (digits : List Char) : Option Char := do
  if digits.isEmpty then none
  let n ← digits.foldlM (fun n c => (digit? base c).map (n * base + ·)) 0
  let c := Char.ofNat n
  if c.toNat == n && isAllowed c then some c else none

/-- The character that a reference stands for. -/
def referent? (body : List Char) : Option Char :=
  match body with
  | '#' :: 'x' :: digits => codeChar? 16 digits
  | '#' :: digits => codeChar? 10 digits
  | _ =>
    match String.ofList body with
    | "lt" => some '<'
    | "gt" => some '>'
    | "amp" => some '&'
    | "quot" => some '"'
    | "apos" => some '\''
    | _ => none

/-- Reads a reference, from behind its ampersand. -/
def takeReference (cs : List Char) : Option (Char × List Char) := do
  let (body, rest) ← takeUntil [';'] cs
  return (← referent? body, rest)

/-! ## Tags -/

/-- Reads an attribute value up to its closing quote, from behind the opening one. White space counts as
blanks. -/
def takeValue (quote : Char) : (fuel : Nat) → List Char → Option (List Char × List Char)
  | 0, _ => none
  | _, [] => none
  | fuel + 1, c :: cs =>
    if c == quote then some ([], cs)
    else if c == '<' then none
    else if c == '&' then do
      let (referent, rest) ← takeReference cs
      let (value, rest) ← takeValue quote fuel rest
      return (referent :: value, rest)
    else do
      let (value, rest) ← takeValue quote fuel cs
      return ((if isSpace c then ' ' else c) :: value, rest)

/-- Reads a value in quotes of either form. -/
def takeQuoted : List Char → Option (List Char × List Char)
  | c :: cs => if c == '"' || c == '\'' then takeValue c (cs.length + 1) cs else none
  | [] => none

/-- Reads one attribute. -/
def takeAttribute (cs : List Char) : Option ((QName × String) × List Char) := do
  let (name, rest) ← takeQName cs
  let rest ← expect? "=" (skipSpace rest)
  let (value, rest) ← takeQuoted (skipSpace rest)
  return ((name, String.ofList value), rest)

/-- Reads the attributes of a tag and its end. Says whether the element is empty. -/
def takeAttributes : (fuel : Nat) → List Char → Option (List (QName × String) × Bool × List Char)
  | 0, _ => none
  | fuel + 1, cs =>
    match skipSpace cs with
    | '>' :: rest => some ([], false, rest)
    | '/' :: '>' :: rest => some ([], true, rest)
    | next =>
      if (cs.head?.map isSpace).getD false then do
        let (first, rest) ← takeAttribute next
        let (more, isEmpty, rest) ← takeAttributes fuel rest
        return (first :: more, isEmpty, rest)
      else none

/-- Reads an opening tag, from behind its bracket. -/
def takeOpening (cs : List Char) : Option (Event × List Char) := do
  let (name, rest) ← takeQName cs
  let (attributes, isEmpty, rest) ← takeAttributes (rest.length + 1) rest
  return (.opening name attributes isEmpty, rest)

/-- Reads a closing tag, from behind its slash. -/
def takeClosing (cs : List Char) : Option (Event × List Char) := do
  let (name, rest) ← takeQName cs
  let rest ← expect? ">" (skipSpace rest)
  return (.closing name, rest)

/-! ## Other constructs -/

/-- Reads a comment, from behind its opening. Two hyphens end it. -/
def takeComment (cs : List Char) : Option (List Char) := do
  let (_, rest) ← takeUntil ['-', '-'] cs
  expect? ">" rest

/-- Reads a processing instruction, from behind its opening. The name `xml` is reserved in every spelling. -/
def takeInstruction (cs : List Char) : Option (List Char) := do
  let (name, rest) ← takeName cs
  if name.map Char.toLower == ['x', 'm', 'l'] then none
  else
    match expect? "?>" rest with
    | some rest => some rest
    | none =>
      if (rest.head?.map isSpace).getD false then (← takeUntil ['?', '>'] rest).2 else none

/-- Reads a literal in quotes of either form. -/
def takeLiteral : List Char → Option (List Char)
  | c :: cs => if c == '"' || c == '\'' then (takeUntil [c] cs).map (·.2) else none
  | [] => none

/-- The characters of a public identifier. -/
def isPublicChar (c : Char) : Bool :=
  c.isAlphanum || c == ' ' || c == '\r' || c == '\n' || "-'()+,./:=?;!*#@$_%".toList.contains c

/-- Reads a public identifier in quotes of either form. -/
def takePublic : List Char → Option (List Char)
  | c :: cs =>
    if c == '"' || c == '\'' then do
      let (content, rest) ← takeUntil [c] cs
      if content.all isPublicChar then some rest else none
    else none
  | [] => none

/-- Reads the white space that has to stand between two parts. -/
def takeSpace (cs : List Char) : Option (List Char) :=
  if (cs.head?.map isSpace).getD false then some (skipSpace cs) else none

/-- Reads the location of a document type, if one is given. -/
def takeLocation (cs : List Char) : Option (List Char) :=
  match takeSpace cs with
  | none => some cs
  | some rest =>
    match expect? "SYSTEM" rest, expect? "PUBLIC" rest with
    | some rest, _ => (takeSpace rest).bind takeLiteral
    | none, some rest => do takeLiteral (← takeSpace (← takePublic (← takeSpace rest)))
    | none, none => some rest

/-- Reads the name of a document type. Its second part may begin with any character that a name goes on with. -/
def takeDoctypeName (cs : List Char) : Option (List Char) := do
  let (_, rest) ← takeName cs
  match rest with
  | ':' :: rest =>
    let (second, rest) := rest.span isNameChar
    if second.isEmpty || rest.head? == some ':' then none else some rest
  | _ => some rest

/-- Reads a document type, from behind its keyword, up to its end or to the beginning of its declarations. -/
def takeDoctype (cs : List Char) : Option (Event × List Char) := do
  let rest ← takeDoctypeName (← takeSpace cs)
  match skipSpace (← takeLocation rest) with
  | '>' :: rest => return (.doctype false, rest)
  | '[' :: _ => return (.doctype true, [])
  | _ => none

/-- Reads a part `name="value"` of the declaration, with the white space before it. -/
def takePseudo (name : String) (cs : List Char) : Option (String × List Char) := do
  let rest ← expect? name (← takeSpace cs)
  let rest := skipSpace (← expect? "=" (skipSpace rest))
  match rest with
  | c :: cs =>
    if c == '"' || c == '\'' then
      let (value, rest) ← takeUntil [c] cs
      let plain := value.all fun v => v.isAlphanum || v == '.' || v == '-' || v == '_'
      if plain then some (String.ofList value, rest) else none
    else none
  | [] => none

/-- Reads a part of the declaration that may be missing. -/
def takeOptional (name : String) (isValid : String → Bool) (cs : List Char) :
    Option (Option String × List Char) :=
  match (takeSpace cs).bind (expect? name) with
  | none => some (none, cs)
  | some _ => do
    let (value, rest) ← takePseudo name cs
    if isValid value then some (some value, rest) else none

/-- Whether a text could be the name of an encoding. -/
def isEncodingName (name : String) : Bool :=
  (name.toList.head?.map Char.isAlpha).getD false

/-- Reads the declaration that a document may begin with. It may name the encoding. -/
def takeDeclaration (cs : List Char) : Option (Option String × List Char) :=
  match expect? "<?xml" cs with
  | some (c :: rest) =>
    if isSpace c then do
      let (_, rest) ← takePseudo "version" (c :: rest)
      let (encoding, rest) ← takeOptional "encoding" isEncodingName rest
      let (_, rest) ← takeOptional "standalone" (fun v => v == "yes" || v == "no") rest
      return (encoding, ← expect? "?>" (skipSpace rest))
    else some (none, cs)
  | _ => some (none, cs)

/-! ## The document -/

/-- Reads all events of a text. -/
def takeEvents : (fuel : Nat) → List Char → Option (List Event)
  | _, [] => some []
  | 0, _ => none
  | fuel + 1, c :: cs =>
    if c == '&' then do
      let (referent, rest) ← takeReference cs
      return .text [referent] false :: (← takeEvents fuel rest)
    else if c == '<' then
      match cs with
      | '/' :: rest => do
        let (event, rest) ← takeClosing rest
        return event :: (← takeEvents fuel rest)
      | '?' :: rest => do takeEvents fuel (← takeInstruction rest)
      | '!' :: rest =>
        match expect? "--" rest, expect? "[CDATA[" rest, expect? "DOCTYPE" rest with
        | some rest, _, _ => do takeEvents fuel (← takeComment rest)
        | none, some rest, _ => do
          let (content, rest) ← takeUntil [']', ']', '>'] rest
          return .text content false :: (← takeEvents fuel rest)
        | none, none, some rest => do
          let (event, rest) ← takeDoctype rest
          return event :: (← takeEvents fuel rest)
        | none, none, none => none
      | _ => do
        let (event, rest) ← takeOpening cs
        return event :: (← takeEvents fuel rest)
    else
      let (content, rest) := (c :: cs).span fun x => x != '<' && x != '&'
      if (takeUntil [']', ']', '>'] content).isSome then none
      else do return .text content true :: (← takeEvents fuel rest)

/-- The events of a document. -/
def Event.read (document : List Char) : Option (List Event) := do
  if !document.all isAllowed then none
  let (_, cs) ← takeDeclaration (normalizeBreaks document)
  takeEvents (cs.length + 1) cs

end VersionAudit.Xml
