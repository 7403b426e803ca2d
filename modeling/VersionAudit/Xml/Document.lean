import VersionAudit.Xml.Element
import VersionAudit.Xml.Event

/-!
# From a text to a tree

1. `Bindings`: the name spaces in force.
2. `Growth`: a document read so far, event by event.
3. `Element.read`: from the text of a document to its root.
-/

namespace VersionAudit.Xml

/-! ## Name spaces -/

/-- The name space that the scope `xml` stands for. -/
def xmlSpace : String := "http://www.w3.org/XML/1998/namespace"

/-- The name space of declarations, which nothing may be bound to. -/
def declarationSpace : String := "http://www.w3.org/2000/xmlns/"

/-- The name spaces in force, the innermost first. The empty scope is the default name space. -/
abbrev Bindings := List (String × String)

/-- The scope that an attribute declares, if it is a declaration. -/
def declared? (q : QName) : Option String :=
  match q.scope with
  | none => if q.name = "xmlns" then some "" else none
  | some scope => if scope = "xmlns" then some q.name else none

/-- Whether a scope may be bound to a name space. -/
def mayBind (scope space : String) : Bool :=
  scope != "xmlns" && (scope == "" || space != "") && (scope == "xml") == (space == xmlSpace) &&
    space != declarationSpace && !space.toList.contains '\x7d'

/-- The bindings after the declarations among the attributes of an element. -/
def bind (bindings : Bindings) : List (QName × String) → Option Bindings
  | [] => some bindings
  | (q, space) :: attributes =>
    match declared? q with
    | none => bind bindings attributes
    | some scope => if mayBind scope space then bind ((scope, space) :: bindings) attributes else none

/-- The name space of a scope. -/
def spaceOf? (bindings : Bindings) (scope : String) : Option String :=
  if scope = "xml" then some xmlSpace else bindings.lookup scope

/-- An attribute that is no declaration, with its name space. -/
def expanded? (bindings : Bindings) (q : QName) : Option (String × String) :=
  match q.scope with
  | none => some ("", q.name)
  | some scope => (spaceOf? bindings scope).map (·, q.name)

/-- Whether a list has no repetition. -/
def allDistinct {α : Type} [BEq α] : List α → Bool
  | [] => true
  | x :: xs => !xs.contains x && allDistinct xs

/-- Whether all names of an opening tag are declared and no attribute is given twice. -/
def isValidTag (bindings : Bindings) (name : QName) (attributes : List (QName × String)) : Bool :=
  let others := attributes.filter fun a => (declared? a.1).isNone
  match others.mapM fun a => expanded? bindings a.1 with
  | none => false
  | some names =>
    (expanded? bindings name).isSome && allDistinct (attributes.map (·.1)) && allDistinct names

/-! ## The tree -/

/-- An element whose end has not been read: its text and its children, the latest first. -/
structure Frame where
  name : QName
  text : List Char := []
  children : List Element := []
  bindings : Bindings

/-- The element of a frame at its end. -/
def Frame.element (f : Frame) : Element :=
  .mk f.name.name (String.ofList f.text.reverse) f.children.reverse

/-- Adds text; behind the first child it does not count. -/
def Frame.addText (f : Frame) (content : List Char) : Frame :=
  if f.children.isEmpty then { f with text := content.reverse ++ f.text } else f

/-- A document read so far. -/
structure Growth where
  /-- The open elements, the innermost first. -/
  stack : List Frame := []
  root : Option Element := none
  hasDoctype : Bool := false
  /-- Declarations have begun, which are not read. -/
  isLeft : Bool := false

namespace Growth

/-- Adds a finished element. -/
def close (g : Growth) (e : Element) (outer : List Frame) : Growth :=
  match outer with
  | [] => { g with stack := [], root := some e }
  | f :: fs => { g with stack := { f with children := e :: f.children } :: fs }

/-- Takes the next event. -/
def step (g : Growth) (event : Event) : Option Growth :=
  match event, g.stack with
  | .doctype hasDeclarations, [] =>
    if g.root.isSome || g.hasDoctype then none
    else some { g with hasDoctype := true, isLeft := hasDeclarations }
  | .doctype _, _ => none
  | .text content plain, [] => if plain && content.all isSpace then some g else none
  | .text content _, f :: fs => some { g with stack := f.addText content :: fs }
  | .opening name attributes isEmpty, stack =>
    if stack.isEmpty && g.root.isSome then none
    else
      let outer := (stack.head?.map (·.bindings)).getD []
      match bind outer attributes with
      | none => none
      | some bindings =>
        if !isValidTag bindings name attributes then none
        else if isEmpty then some (g.close (.mk name.name "" []) stack)
        else some { g with stack := { name, bindings } :: stack }
  | .closing _, [] => none
  | .closing name, f :: fs => if name == f.name then some (g.close f.element fs) else none

end Growth

/-- The root of a document, or none if the document is not well-formed. A document type with declarations of its own is
not read. -/
def Element.read (document : List Char) : Except String (Option Element) :=
  match (Event.read document).bind (·.foldlM Growth.step {}) with
  | none => .ok none
  | some g =>
    if g.isLeft then .error "document type declarations are not supported"
    else .ok (if g.stack.isEmpty then g.root else none)

end VersionAudit.Xml
