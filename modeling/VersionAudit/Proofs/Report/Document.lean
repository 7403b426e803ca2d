import VersionAudit.Report.PackageAddress

/-!
# What the libraries of a bill promise

How a document is read, field by field, and which document of a bill is a right one.

1. `Json.items`, `Json.text?`: the items and the text in a field. `Json.Says`, `Json.DependsOn`: the properties and the
   dependencies in a document.
2. `Describes`: an item of a document is for a component. `Shows`: a document is for a bill.
3. `Library.Documented`: a library gives packages with names their addresses, and writes the documents of bills.
-/

namespace VersionAudit

/-! ## Reading documents -/

namespace Json

/-- The items in a field, none if it is absent. -/
def items (j : Json) (name : String) : List Json :=
  match j.field? name with
  | some (.array items) => items
  | _ => []

/-- The text in a field. -/
def text? (j : Json) (name : String) : Option String :=
  (j.field? name).bind string?

/-- The component has a property of the given name and value. -/
def Says (component : Json) (name value : String) : Prop :=
  ∃ p ∈ component.items "properties", p.text? "name" = some name ∧ p.text? "value" = some value

/-- The component of the project that the document is about, if it is about one. -/
def project? (document : Json) : Option Json :=
  (document.field? "metadata").bind (·.field? "component")

/-- The document lists the second reference among the dependencies of the first one. -/
def DependsOn (document : Json) (dependent needed : String) : Prop :=
  ∃ d ∈ document.items "dependencies", d.text? "ref" = some dependent ∧ Json.string needed ∈ d.items "dependsOn"

end Json

namespace Report

/-! ## Right documents -/

/-- Something is left of a name without the blanks and slashes at its ends. -/
def IsNamed (name : String) : Prop :=
  trimSlashes (Text.trim name) ≠ ""

instance (name : String) : Decidable (IsNamed name) :=
  inferInstanceAs (Decidable (trimSlashes (Text.trim name) ≠ ""))

/-- An item of a document describes a component, which is referred to in some way. A property without a value may be left
out. -/
structure Describes (ref : Component → String) (c : Component) (item : Json) : Prop where
  ref : item.text? "bom-ref" = some (ref c)
  purl : item.text? "purl" = some c.address
  properties : ∀ name value, value ≠ "" → (item.Says name value ↔ (name, value) ∈ c.properties)

/-- No two components of a bill have the same address. The root is none of them, and depends on some of them. -/
structure Bill.IsProper (b : Bill) : Prop where
  distinct : (b.components.map (·.address)).Nodup
  apart : ∀ c ∈ b.root, c ∉ b.components
  needed : b.needed ⊆ b.components

/-- A document shows a bill: each component is in it once, and the root depends on what it is to depend on. How components
are referred to is left to the document. -/
structure Shows (b : Bill) (ref : Component → String) (document : Json) : Prop where
  components : ∃ item : Component → Json, (document.items "components").Perm (b.components.map item) ∧
    ∀ c ∈ b.components, Describes ref c (item c)
  root : ∀ c ∈ b.root, ∃ item, document.project? = some item ∧ Describes ref c item
  needed : ∀ c ∈ b.root, ∀ needed, document.DependsOn (ref c) needed ↔ needed ∈ b.needed.map ref

/-- The library does what it is documented to do: a package with a name has an address, and a proper bill is shown by its
document. -/
structure Library.Documented (lib : Library) : Prop where
  address : ∀ p : Package, IsNamed p.name → ∃ address, lib.address p = .ok address
  write : ∀ b : Bill, b.IsProper → ∃ ref, Shows b ref (lib.write b)

end Report

end VersionAudit
