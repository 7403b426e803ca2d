import VersionAudit.Text.Digit

/-!
# Reading command lines

A command line is a row of words. Some are options, which may take values of their own; the others are
arguments. An option may be abbreviated as long as it stays unique, its value may follow an equals sign, and
single letters may be joined.

1. `Grammar.classify`: which words are options and which are values.
2. `Grammar.read`: what the words mean, or why the program leaves while reading them.
-/

namespace VersionAudit.CommandLine

/-- Why the program leaves while it reads its command line. -/
inductive Leave
  /-- It was asked about itself. -/
  | answered
  /-- It does not understand. -/
  | misused
deriving Repr, DecidableEq

/-- What an option does to the settings read so far. -/
inductive Action (α : Type)
  /-- Shows something about the program and leaves. -/
  | inform
  /-- Changes the settings, or refuses its values. -/
  | change (f : List String → α → Option α)

/-- An option: how it may be written, how many values it takes and what it does. -/
structure Rule (α : Type) where
  names : List String
  arity : Nat := 0
  action : Action α

/-- The options of a command. -/
abbrev Grammar (α : Type) := List (Rule α)

/-- What follows the name of an option in the same word. -/
inductive Tail
  | nothing
  /-- A value behind the equals sign of a long name. -/
  | value (text : List Char)
  /-- What stands behind a single letter or its equals sign: a value, or the letters of further options. -/
  | letters (text : List Char)
deriving Repr, DecidableEq

/-- A word of a command line. -/
inductive Word (α : Type)
  | value (text : String)
  /-- Two hyphens: all further words are values. -/
  | separator
  | known (rule : Rule α) (tail : Tail)
  | unknown

variable {α : Type}

namespace Grammar

/-- The option that is written in the given way. -/
def named? (g : Grammar α) (name : String) : Option (Rule α) :=
  List.find? (fun r => r.names.contains name) g

/-- All ways to write an option, with the option. -/
def spellings (g : Grammar α) : List (String × Rule α) :=
  g.flatMap fun r => r.names.map (·, r)

/-- Whether a word begins with another. -/
def begins (front word : String) : Bool :=
  front.toList.isPrefixOf word.toList

/-- Splits a word at its first equals sign. -/
def splitValue (word : String) : String × Tail :=
  match word.toList.span (· != '=') with
  | (front, _ :: value) => (String.ofList front, if begins "--" word then .value value else .letters value)
  | (_, []) => (word, .nothing)

/-- The options that a word may abbreviate. -/
def candidates (g : Grammar α) (word : String) : List (Word α) :=
  if begins "--" word then
    let (front, tail) := splitValue word
    (g.spellings.filter fun s => begins front s.1).map fun s => .known s.2 tail
  else
    let letter := String.ofList (word.toList.take 2)
    g.spellings.filterMap fun s =>
      if s.1 = letter then some (.known s.2 (.letters (word.toList.drop 2)))
      else if begins word s.1 then some (.known s.2 .nothing)
      else none

/-- Whether a character is a decimal digit of any script. -/
def isDigit (c : Char) : Bool :=
  (Text.digitValue? c).isSome

/-- The text without the line break at its end, if it has one. -/
def dropBreak (cs : List Char) : List Char :=
  if cs.getLast? = some '\n' then cs.dropLast else cs

/-- Whether a word is a negative number, in the decimal digits of any script and possibly with a line break at its
end. -/
def isNegativeNumber (word : String) : Bool :=
  match dropBreak word.toList with
  | '-' :: cs =>
    let (whole, rest) := cs.span isDigit
    match rest with
    | [] => !whole.isEmpty
    | '.' :: fraction => !fraction.isEmpty && fraction.all isDigit
    | _ => false
  | _ => false

/-- What a word is, taken by itself. -/
def classifyWord (g : Grammar α) (word : String) : Except Leave (Word α) :=
  if !begins "-" word then .ok (.value word)
  else
    match g.named? word with
    | some r => .ok (.known r .nothing)
    | none =>
      if word.length = 1 then .ok (.value word)
      else
        let (front, tail) := splitValue word
        match g.named? front with
        | some r => .ok (.known r tail)
        | none =>
          match g.candidates word with
          | [only] => .ok only
          | _ :: _ => .error .misused
          | [] =>
            if isNegativeNumber word || word.toList.contains ' ' then .ok (.value word) else .ok .unknown

/-- What the words of a command line are. -/
def classify (g : Grammar α) : List String → Except Leave (List (Word α))
  | [] => .ok []
  | "--" :: words => .ok (.separator :: words.map .value)
  | word :: words => do
    let first ← g.classifyWord word
    return first :: (← g.classify words)

end Grammar

/-- What was read of a command line: settings and arguments, and whether a word had no meaning. -/
structure Reading (α : Type) where
  settings : α
  arguments : List String := []
  hasStrayWord : Bool := false

/-- Whether a word is a value, and which. -/
def Word.value? : Word α → Option String
  | .value text => some text
  | _ => none

/-- Whether a word is an option. -/
def Word.isOption : Word α → Bool
  | .known .. => true
  | .unknown => true
  | _ => false

/-- The next words, if there are enough of them and all are values. -/
def takeValues : Nat → List (Word α) → Option (List String × List (Word α))
  | 0, words => some ([], words)
  | n + 1, .value text :: words => (takeValues n words).map fun (values, rest) => (text :: values, rest)
  | _ + 1, _ => none

/-- The options of one word, each with its values, and the words behind them. -/
structure Joined (α : Type) where
  options : List (Rule α × List String)
  rest : List (Word α)

/-- An option whose values are the next words. -/
def separateValues (words : List (Word α)) (r : Rule α) : Option (Joined α) :=
  (takeValues r.arity words).map fun (values, rest) => { options := [(r, values)], rest }

/-- An option that takes one value, with the value in the same word. Two hyphens there are no value. -/
def ownValue (words : List (Word α)) (r : Rule α) (text : List Char) : Joined α :=
  { options := [(r, if text = ['-', '-'] then [] else [String.ofList text])], rest := words }

/-- An option that is written as a letter, with the text behind that letter: its value if it takes one, or else the
letters of further options. Only the last of them may take its values from the next words. -/
def letterOptions (g : Grammar α) (words : List (Word α)) (r : Rule α) : (text : List Char) → Option (Joined α)
  | [] => if r.arity = 1 then some (ownValue words r []) else none
  | c :: text =>
    if r.arity = 1 then some (ownValue words r (c :: text))
    else if r.arity = 0 then do
      let next ← g.named? (String.ofList ['-', c])
      let joined ← if text.isEmpty then separateValues words next else letterOptions g words next text
      return { joined with options := (r, []) :: joined.options }
    else none

/-- The options of a word that begins with an option and goes on with `tail`. -/
def joinedOptions (g : Grammar α) (words : List (Word α)) (r : Rule α) : Tail → Option (Joined α)
  | .nothing => separateValues words r
  | .value text => if r.arity = 1 then some (ownValue words r text) else none
  | .letters text => letterOptions g words r text

/-- Applies options one after the other. -/
def applyAll (settings : α) : List (Rule α × List String) → Except Leave α
  | [] => .ok settings
  | (r, values) :: more =>
    match r.action with
    | .inform => .error .answered
    | .change f =>
      match f values settings with
      | some settings => applyAll settings more
      | none => .error .misused

/-- Takes the values in front of the next option. The first such row that is not empty gives the arguments, at
most `limit` of them; every other value has no meaning. -/
def Reading.takeRow (limit : Nat) (row : List (Word α)) (r : Reading α) : Reading α :=
  let values := row.filterMap (·.value?)
  if row.isEmpty then r
  else if r.arguments.isEmpty && !values.isEmpty then
    { r with arguments := values.take limit, hasStrayWord := r.hasStrayWord || limit < values.length }
  else { r with hasStrayWord := true }

/-- Reads all words; at most `fuel` options are read. -/
def readWords (g : Grammar α) (limit : Nat) : (fuel : Nat) → Reading α → List (Word α) →
    Except Leave (Reading α)
  | 0, r, _ => .ok r
  | fuel + 1, r, words =>
    let (row, rest) := words.span fun w => !w.isOption
    let r := r.takeRow limit row
    match rest with
    | .known rule tail :: more =>
      match joinedOptions g more rule tail with
      | none => .error .misused
      | some joined => do
        let settings ← applyAll r.settings joined.options
        readWords g limit fuel { r with settings } joined.rest
    | .unknown :: more => readWords g limit fuel { r with hasStrayWord := true } more
    | _ => .ok r

/-- Reads a command line with at most `limit` arguments. -/
def Grammar.read (g : Grammar α) (limit : Nat) (settings : α) (words : List String) :
    Except Leave (Reading α) := do
  let classified ← g.classify words
  readWords g limit (classified.length + 1) { settings } classified

end VersionAudit.CommandLine
