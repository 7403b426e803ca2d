import VersionAudit.Text.Blank

/-!
# Elements

The tree of a document. Of an element its name without name space, its text up to the first child, and its
children are kept.

1. `Element`: the tree.
2. `Element.child?`, `Element.listed`, `Element.value?`: look-ups in it.
-/

namespace VersionAudit.Xml

/-- An element of a document. -/
inductive Element
  | mk (name : String) (text : String) (children : List Element)
deriving Repr, Inhabited

namespace Element

/-- The name without its name space. -/
def name : Element → String
  | .mk name _ _ => name

/-- The text up to the first child. -/
def text : Element → String
  | .mk _ text _ => text

/-- The children in order. -/
def children : Element → List Element
  | .mk _ _ children => children

/-- The first child of a name. -/
def child? (e : Element) (name : String) : Option Element :=
  e.children.find? (·.name == name)

/-- The children of a name. -/
def childrenNamed (e : Element) (name : String) : List Element :=
  e.children.filter (·.name == name)

/-- The children of a name inside the first child of another name. -/
def listed (e : Element) (container name : String) : List Element :=
  match e.child? container with
  | some c => c.childrenNamed name
  | none => []

/-- The trimmed text of the first child of a name, unless it is blank. -/
def value? (e : Element) (name : String) : Option String :=
  match e.child? name with
  | some c => if Text.isBlankText c.text then none else some (Text.trim c.text)
  | none => none

end Element

end VersionAudit.Xml
