import VersionAudit.Proofs.Firsts
import VersionAudit.Proofs.Report.PackageAddress
import VersionAudit.Proofs.Sorting.Content
import VersionAudit.Report.CycloneDx

/-!
# The usual library does what it is documented to do

1. `Json.items_object`: a field that is left out if there is nothing in it.
2. `items_components`, `says_iff`, `dependsOn_iff`, `project?_toJson`: what is in the document of a bill.
3. `documented_usual`: the document shows the bill.
-/

namespace VersionAudit

namespace Json

/-- A list under one name has nothing under another. -/
theorem lookup_listField_of_ne {name other : String} (h : name ≠ other) (listed : List Json) :
    (Report.Bill.listField other listed).lookup name = none := by
  cases listed with
  | nil => rfl
  | cons item listed =>
    unfold Report.Bill.listField
    rw [List.lookup_cons, beq_false_of_ne h]
    rfl

/-- A field that may be absent is found, unless one of the same name comes before or behind it. -/
theorem items_object {front back : List (String × Json)} {name : String} (hfront : front.lookup name = none)
    (hback : back.lookup name = none) (listed : List Json) :
    (Json.object (front ++ Report.Bill.listField name listed ++ back)).items name = listed := by
  have hfield : (Json.object (front ++ Report.Bill.listField name listed ++ back)).field? name =
      (Report.Bill.listField name listed).lookup name := by
    show (front ++ Report.Bill.listField name listed ++ back).lookup name = _
    rw [List.lookup_append, List.lookup_append, hfront, hback, Option.none_or, Option.or_none]
  unfold items
  rw [hfield]
  -- a list without items is not written, and read as one all the same
  cases listed with
  | nil => rfl
  | cons item listed => simp [Report.Bill.listField]

end Json

namespace Report.Bill

/-! ## Components -/

theorem mem_ordered {components : List Component} {c : Component} : c ∈ ordered components ↔ c ∈ components :=
  Sorting.mem_sortBy

/-- The components of a document are those of the bill, ordered. -/
theorem items_components (b : Bill) :
    b.toJson.items "components" = (ordered b.components).map (componentJson "library") := by
  apply Json.items_object
  · rfl
  · exact Json.lookup_listField_of_ne (by decide) _

/-- The properties of a component are written in order, each once. -/
theorem items_properties (kind : String) (c : Component) :
    (componentJson kind c).items "properties" = (orderedProperties c.properties).map propertyJson := by
  unfold componentJson
  rw [← List.append_nil (_ ++ listField "properties" _)]
  -- the fields in front of the properties depend on the group and the need, but none of them has their name
  apply Json.items_object
  · rcases c with ⟨_, _ | group, _, _, _ | _ | _, _⟩ <;> rfl
  · rfl

theorem text?_purl (kind : String) (c : Component) : (componentJson kind c).text? "purl" = some c.address := by
  rcases c with ⟨_, _ | group, _, _, _ | _ | _, _⟩ <;> rfl

theorem text?_bomRef (kind : String) (c : Component) : (componentJson kind c).text? "bom-ref" = some c.address :=
  rfl

/-- Ordering drops repeated properties only. -/
theorem mem_orderedProperties {ps : List (String × String)} {p : String × String} :
    p ∈ orderedProperties ps ↔ p ∈ ps := by
  -- repeated properties are dropped by keeping what is not there yet
  have hstep : (fun kept p => if kept.contains p then kept else kept ++ [p]) =
      keepNew fun p q : String × String => p == q := by
    funext kept p
    unfold keepNew
    rw [List.contains_eq_any_beq]
    simp only [BEq.comm (a := p)]
  unfold orderedProperties
  rw [Sorting.mem_sortBy, hstep]
  constructor
  · exact mem_of_mem_firstsBy
  · intro hp
    obtain ⟨q, hq, hsame⟩ : ∃ q ∈ firstsBy (fun p q : String × String => p == q) ps, (q == p) = true :=
      exists_mem_firstsBy (by simp) hp
    -- equal properties are the same, as they are pairs of texts
    rw [beq_iff_eq] at hsame
    exact hsame ▸ hq

/-- The properties in an item are those of the component. -/
theorem says_iff (kind : String) (c : Component) (name value : String) :
    (componentJson kind c).Says name value ↔ (name, value) ∈ c.properties := by
  unfold Json.Says
  rw [items_properties, ← mem_orderedProperties]
  constructor
  · intro h
    obtain ⟨_, hproperty, hname, hvalue⟩ := h
    obtain ⟨p, hp, rfl⟩ := List.mem_map.1 hproperty
    obtain rfl : p.1 = name := Option.some.inj hname
    obtain rfl : p.2 = value := Option.some.inj hvalue
    exact hp
  · intro h
    exact ⟨_, List.mem_map_of_mem h, rfl, rfl⟩

/-- What is written for a component describes it. -/
theorem describes_componentJson (kind : String) (c : Component) : Describes (·.address) c (componentJson kind c) where
  ref := text?_bomRef kind c
  purl := text?_purl kind c
  properties := fun name value _ => says_iff kind c name value

/-- The document is about the root of the bill. -/
theorem project?_toJson (b : Bill) : b.toJson.project? = b.root.map (componentJson "application") := by
  have hfound : b.toJson.project? =
      (([("tools", Json.object [("components", .array [componentJson "application" b.tool])])] ++
        b.root.toList.map (fun c => ("component", componentJson "application" c)) ++
        listField "properties"
          (if b.commandLine = "" then [] else [propertyJson ("commandLine", b.commandLine)])).lookup "component") := rfl
  rw [hfound]
  cases b.root with
  | none => exact Json.lookup_listField_of_ne (by decide) _
  | some root => rfl

/-! ## Dependencies -/

/-- The dependencies of a document are those of the bill. -/
theorem items_dependencies (b : Bill) : b.toJson.items "dependencies" = b.dependencies.map dependencyJson := by
  unfold toJson
  dsimp only
  rw [← List.append_nil (_ ++ listField "dependencies" _)]
  apply Json.items_object
  · rw [List.lookup_append, Json.lookup_listField_of_ne (by decide)]
    rfl
  · rfl

theorem items_dependsOn (d : String × List String) : (dependencyJson d).items "dependsOn" = d.2.map .string := by
  unfold dependencyJson
  rw [← List.append_nil (_ ++ listField "dependsOn" _)]
  apply Json.items_object <;> rfl

/-- The root depends on what it needs, and every component is listed, with nothing below it. -/
theorem mem_dependencies_iff {b : Bill} {d : String × List String} :
    d ∈ b.dependencies ↔ (∃ root, b.root = some root ∧ d = (root.address, (ordered b.needed).map (·.address))) ∨
      ∃ c ∈ b.components, d = (c.address, []) := by
  unfold dependencies
  rw [Sorting.mem_sortBy, List.mem_append]
  simp [eq_comm, mem_ordered]

/-- It is the root that depends on something in the document. -/
theorem dependsOn_iff {b : Bill} {dependent needed : String} :
    b.toJson.DependsOn dependent needed ↔
      (∃ root, b.root = some root ∧ root.address = dependent) ∧ needed ∈ b.needed.map (·.address) := by
  unfold Json.DependsOn
  rw [items_dependencies]
  constructor
  · rintro ⟨_, hlisted, href, hneeded⟩
    obtain ⟨d, hd, rfl⟩ := List.mem_map.1 hlisted
    obtain rfl : d.1 = dependent := Option.some.inj href
    rw [items_dependsOn, List.mem_map] at hneeded
    obtain ⟨_, hmem, hsame⟩ := hneeded
    obtain rfl := Json.string.inj hsame
    -- components have entries of their own, with nothing in them
    rcases mem_dependencies_iff.1 hd with ⟨root, hroot, rfl⟩ | ⟨c, -, rfl⟩
    · obtain ⟨c, hc, rfl⟩ := List.mem_map.1 hmem
      exact ⟨⟨root, hroot, rfl⟩, List.mem_map_of_mem (mem_ordered.1 hc)⟩
    · cases hmem
  · rintro ⟨⟨root, hroot, rfl⟩, hneeded⟩
    obtain ⟨c, hc, rfl⟩ := List.mem_map.1 hneeded
    refine ⟨_, List.mem_map_of_mem (mem_dependencies_iff.2 (.inl ⟨root, hroot, rfl⟩)), rfl, ?_⟩
    rw [items_dependsOn]
    exact List.mem_map_of_mem (List.mem_map_of_mem (mem_ordered.2 hc))

/-! ## The document -/

/-- In the document of a bill, components are referred to by their addresses. -/
theorem shows_toJson (b : Bill) : Shows b (·.address) b.toJson where
  components := by
    refine ⟨componentJson "library", ?_, fun c _ => describes_componentJson "library" c⟩
    rw [items_components]
    exact (Sorting.sortBy_perm _ _).map _
  root := by
    intro c hc
    refine ⟨componentJson "application" c, ?_, describes_componentJson "application" c⟩
    rw [project?_toJson, Option.mem_def.1 hc]
    rfl
  needed := by
    intro c hc needed
    rw [dependsOn_iff]
    exact and_iff_right ⟨c, hc, rfl⟩

end Report.Bill

theorem Report.Library.documented_usual : Library.usual.Documented where
  address := fun _ hnamed => exists_packageAddress_iff.2 hnamed
  write := fun b _ => ⟨_, b.shows_toJson⟩

end VersionAudit
