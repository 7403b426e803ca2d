import VersionAudit.Identity
import VersionAudit.Text.Blank
import VersionAudit.Text.Glob
import VersionAudit.Text.Split

/-!
# Name patterns

A pattern selects identities by wildcards for the group and, after a colon, for the name. A missing part
selects everything.
-/

namespace VersionAudit

/-- A pattern with the text it was written as. -/
structure Pattern where
  text : String
  group : Text.Glob
  name : Text.Glob
deriving Repr

/-- The faults of a pattern. -/
inductive PatternFault
  | missing
  | malformed (text : String)
deriving Repr, DecidableEq

/-- The message of a fault. -/
def PatternFault.message : PatternFault → String
  | .missing => "pattern is None"
  | .malformed text => "Pattern " ++ text ++ " is not a valid inclusion pattern!"

namespace Pattern

/-- Reads a pattern. -/
def read (text : String) : Except PatternFault Pattern :=
  match (Text.splitChars ':' text.toList).map Text.trimChars with
  | [group] => .ok ⟨text, .ofChars group, .ofChars []⟩
  | [group, name] => .ok ⟨text, .ofChars group, .ofChars name⟩
  | _ => .error (.malformed text)

/-- Reads a pattern that may be missing. -/
def read? : Option String → Except PatternFault Pattern
  | none => .error .missing
  | some text => read text

/-- Whether the pattern selects an identity. -/
def selects (p : Pattern) (n : Identity) : Bool :=
  p.group.matchesText n.group && p.name.matchesText n.name

end Pattern

end VersionAudit
