import VersionAudit.Report.PackageAddress

/-!
# Bills in CycloneDX

1. `Bill.toJson`: the document of a bill. Components are ordered by address, properties by name and value, dependencies
   by address.
2. `Library.usual`: addresses of packages, and documents in CycloneDX.
-/

namespace VersionAudit.Report

namespace Bill

/-- A property as JSON. -/
def propertyJson (p : String × String) : Json :=
  .object [("name", .string p.1), ("value", .string p.2)]

/-- Properties in order, equal ones once. -/
def orderedProperties (ps : List (String × String)) : List (String × String) :=
  let distinct := ps.foldl (fun kept p => if kept.contains p then kept else kept ++ [p]) []
  Sorting.sortBy (fun p q => p.1 < q.1 || (p.1 == q.1 && p.2 < q.2)) distinct

/-- A field, unless there is nothing in it. -/
def listField (name : String) : List Json → List (String × Json)
  | [] => []
  | items => [(name, .array items)]

/-- A component as JSON. -/
def componentJson (kind : String) (c : Component) : Json :=
  .object
    ([("type", .string kind), ("bom-ref", .string c.address)] ++
      (c.group.map fun group => ("group", .string group)).toList ++
      [("name", .string c.name), ("version", .string c.version)] ++
      (match c.need with
      | some .required => [("scope", .string "required")]
      | some .excluded => [("scope", .string "excluded")]
      | none => []) ++
      [("purl", .string c.address)] ++
      listField "properties" ((orderedProperties c.properties).map propertyJson))

/-- Components in order. -/
def ordered (components : List Component) : List Component :=
  Sorting.sortBy (fun c d => c.address < d.address) components

/-- The dependencies of the root and of every component, by address. -/
def dependencies (b : Bill) : List (String × List String) :=
  let root := b.root.toList.map fun c => (c.address, (ordered b.needed).map (·.address))
  Sorting.sortBy (fun d e => d.1 < e.1) (root ++ (ordered b.components).map fun c => (c.address, []))

/-- The dependencies of one component as JSON. -/
def dependencyJson (d : String × List String) : Json :=
  .object ([("ref", .string d.1)] ++ listField "dependsOn" (d.2.map .string))

/-- The bill as a document. -/
def toJson (b : Bill) : Json :=
  let metadata :=
    [("tools", Json.object [("components", .array [componentJson "application" b.tool])])] ++
      b.root.toList.map (fun c => ("component", componentJson "application" c)) ++
      listField "properties"
        (if b.commandLine = "" then [] else [propertyJson ("commandLine", b.commandLine)])
  .object
    ([("$schema", .string "http://cyclonedx.org/schema/bom-1.6.schema.json"),
      ("bomFormat", .string "CycloneDX"), ("specVersion", .string "1.6"), ("version", .int 1),
      ("metadata", .object metadata)] ++
      listField "components" ((ordered b.components).map (componentJson "library")) ++
      listField "dependencies" (b.dependencies.map dependencyJson))

end Bill

/-- Addresses of packages, and documents in CycloneDX. -/
def Library.usual : Library where
  address := packageAddress
  write := Bill.toJson

end VersionAudit.Report
