import VersionAudit.Proofs.Except
import VersionAudit.Proofs.Firsts
import VersionAudit.Proofs.Report.CycloneDx

/-!
# What a bill of materials says

A bill has one component for every package address of its entries. Several entries can have the same address, when more
than one project is reported, and the component is that of the first of them. What the addresses are, and what a document
looks like, is up to the library.

1. `foldlM_add_ok_iff`: the components of a row of entries. `exists_find?_of_rows`: which entries they are of.
2. `make_ok_iff`, `exists_make_iff`: what is in a bill, and when there is one. `isProper_make`: it is a proper one.
3. `exists_purl_iff`, `exists_project`, `exists_first_entry`: what the document of a bill says of the entries.
   `document_says`: all of it, for any library that does what it is documented to do.
-/

namespace VersionAudit.Report

namespace Library

variable (lib : Library)

/-- The package address of an entry, if it has one. -/
def addressOf? (e : Entry) : Option String :=
  (lib.address (.of e.name e.resolved.text)).toOption

/-- The package address of a project, if it has one. -/
def projectAddress? (p : Project) : Option String :=
  (lib.address (.of (.ofProject p) p.version)).toOption

end Library

namespace Bill

variable {lib : Library}

/-- An entry has one property for its conflict. -/
theorem mem_propertiesOf_iff {e : Entry} {value : String} :
    ("depversions:conflict", value) ∈ Component.propertiesOf e ↔ value = if e.hasConflict then "true" else "false" := by
  unfold Component.propertiesOf
  simp

/-! ## Components -/

/-- A component can be made of a package that has an address. -/
theorem exists_ofPackage_iff {p : Package} :
    (∃ c, Component.ofPackage lib p = .ok c) ↔ ∃ address, lib.address p = .ok address :=
  Except.exists_bind_pure_iff

/-- The component of a package has its address and needs nothing. -/
theorem ofPackage_ok {p : Package} {c : Component} (h : Component.ofPackage lib p = .ok c) :
    lib.address p = .ok c.address ∧ c.need = none := by
  unfold Component.ofPackage at h
  obtain ⟨address, haddress, hc⟩ := Except.bind_ok_iff.1 h
  obtain rfl := Except.ok.inj hc
  exact ⟨haddress, rfl⟩

/-- The component of an entry has its address and its properties. -/
theorem ofEntry_ok {e : Entry} {c : Component} (h : Component.ofEntry lib e = .ok c) :
    lib.addressOf? e = some c.address ∧ c.properties = Component.propertiesOf e ∧ c.need ≠ none := by
  unfold Component.ofEntry at h
  obtain ⟨d, hd, hc⟩ := Except.bind_ok_iff.1 h
  obtain rfl := Except.ok.inj hc
  exact ⟨congrArg Except.toOption (ofPackage_ok hd).1, rfl, Option.some_ne_none _⟩

/-- A component can be made of an entry if its resolved version has an address. -/
theorem exists_ofEntry_iff {e : Entry} :
    (∃ c, Component.ofEntry lib e = .ok c) ↔ ∃ address, lib.address (.of e.name e.resolved.text) = .ok address :=
  Except.exists_bind_pure_iff.trans exists_ofPackage_iff

/-- One more entry adds its component, unless one has its address. -/
theorem add_ok_iff {kept kept' : List Component} {e : Entry} :
    add lib kept e = .ok kept' ↔
      ∃ c, Component.ofEntry lib e = .ok c ∧ keepNew (fun c d => c.address == d.address) kept c = kept' := by
  unfold add
  rw [Except.bind_ok_iff]
  constructor
  · rintro ⟨c, hc, hkept⟩
    exact ⟨c, hc, Except.ok.inj hkept⟩
  · rintro ⟨c, hc, rfl⟩
    exact ⟨c, hc, rfl⟩

/-- Of the components of the entries, the first one of each address is kept. -/
theorem foldlM_add_ok_iff {entries : List Entry} {kept components : List Component} :
    entries.foldlM (add lib) kept = .ok components ↔
      ∃ rows, List.Forall₂ (fun e c => Component.ofEntry lib e = .ok c) entries rows ∧
        rows.foldl (keepNew fun c d => c.address == d.address) kept = components := by
  -- on the entries, with what is kept so far left open: each step keeps the component of its entry or drops it
  induction entries generalizing kept with
  | nil =>
    constructor
    · intro h
      exact ⟨[], .nil, Except.ok.inj h⟩
    · rintro ⟨rows, hrows, rfl⟩
      cases hrows
      rfl
  | cons e entries ih =>
    rw [List.foldlM_cons, Except.bind_ok_iff]
    constructor
    · rintro ⟨kept', hstep, hrest⟩
      obtain ⟨c, hc, rfl⟩ := add_ok_iff.1 hstep
      obtain ⟨rows, hrows, hfold⟩ := ih.1 hrest
      exact ⟨c :: rows, .cons hc hrows, hfold⟩
    · rintro ⟨_, hall, hfold⟩
      obtain ⟨c, rows, hc, hrows, rfl⟩ := List.forall₂_cons_left_iff.1 hall
      exact ⟨_, add_ok_iff.2 ⟨c, hc, rfl⟩, ih.2 ⟨rows, hrows, hfold⟩⟩

/-- The first component of an address is that of the first entry with the address. -/
theorem exists_find?_of_rows {entries : List Entry} {rows : List Component}
    (h : List.Forall₂ (fun e c => Component.ofEntry lib e = .ok c) entries rows) {address : String} {c : Component}
    (hc : rows.find? (·.address == address) = some c) :
    ∃ e, entries.find? (lib.addressOf? · == some address) = some e ∧ Component.ofEntry lib e = .ok c := by
  induction h with
  | nil => cases hc
  | cons hd hrest ih =>
    rename_i e d entries rows
    have haddress : lib.addressOf? e = some d.address := (ofEntry_ok hd).1
    have hsame : (lib.addressOf? e == some address) = (d.address == address) := by
      rw [haddress]
      exact Bool.eq_iff_iff.2 (by simp)
    -- the searches in the two rows pass over the same places
    rw [List.find?_cons] at hc ⊢
    rw [hsame]
    cases hfirst : d.address == address with
    | true =>
      rw [hfirst] at hc
      exact ⟨e, rfl, Option.some.inj hc ▸ hd⟩
    | false =>
      rw [hfirst] at hc
      exact ih hc

/-- The addresses of the rows are those of the entries. -/
theorem address_mem_rows_iff {entries : List Entry} {rows : List Component}
    (h : List.Forall₂ (fun e c => Component.ofEntry lib e = .ok c) entries rows) {address : String} :
    (∃ c ∈ rows, c.address = address) ↔ ∃ e ∈ entries, lib.addressOf? e = some address := by
  induction h with
  | nil => simp
  | cons hd _ ih => simp [ih, (ofEntry_ok hd).1]

/-! ## Bills -/

variable {projects : List Project} {entries : List Entry} {commandLine : String} {b : Bill}

/-- A bill has the component of the first project as its root, and of the components of the entries the first one of each
address. -/
theorem make_ok_iff : make lib projects entries commandLine = .ok b ↔
    Component.ofPackage lib .tool = .ok b.tool ∧
      projects.head?.mapM (Component.ofProject lib) = .ok b.root ∧
      (∃ rows, List.Forall₂ (fun e c => Component.ofEntry lib e = .ok c) entries rows ∧
        firstsBy (fun c d => c.address == d.address) rows = b.components) ∧
      b.needed = (if b.root.isSome then b.components else []) ∧ b.commandLine = commandLine := by
  unfold make
  simp only [Except.bind_ok_iff, foldlM_add_ok_iff]
  constructor
  · rintro ⟨tool, htool, root, hroot, components, hcomponents, hb⟩
    obtain rfl := Except.ok.inj hb
    exact ⟨htool, hroot, hcomponents, rfl, rfl⟩
  · rintro ⟨htool, hroot, hcomponents, hneeded, rfl⟩
    exact ⟨b.tool, htool, b.root, hroot, b.components, hcomponents, by rw [← hneeded]; rfl⟩

/-- There is a bill just if there are addresses for the program that writes it, the first project and all entries. -/
theorem exists_make_iff : (∃ b, make lib projects entries commandLine = .ok b) ↔
    (∃ address, lib.address .tool = .ok address) ∧
      (∀ p ∈ projects.head?, ∃ address, lib.address (.of (.ofProject p) p.version) = .ok address) ∧
      ∀ e ∈ entries, ∃ address, lib.address (.of e.name e.resolved.text) = .ok address := by
  -- a root is made only if there is a project
  have hroot : (∃ root, projects.head?.mapM (Component.ofProject lib) = .ok root) ↔
      ∀ p ∈ projects.head?, ∃ address, lib.address (.of (.ofProject p) p.version) = .ok address := by
    simp only [Except.exists_mapM_option_iff]
    exact forall₂_congr fun _ _ => exists_ofPackage_iff
  have hrows : (∃ rows, List.Forall₂ (fun e c => Component.ofEntry lib e = .ok c) entries rows) ↔
      ∀ e ∈ entries, ∃ address, lib.address (.of e.name e.resolved.text) = .ok address := by
    simp only [exists_forall₂_iff, exists_ofEntry_iff]
  rw [← hroot, ← hrows, ← exists_ofPackage_iff]
  simp only [make_ok_iff]
  constructor
  · rintro ⟨b, htool, hmade, ⟨rows, hall, -⟩, -⟩
    exact ⟨⟨_, htool⟩, ⟨_, hmade⟩, rows, hall⟩
  · rintro ⟨⟨tool, htool⟩, ⟨root, hmade⟩, rows, hall⟩
    exact ⟨⟨tool, root, _, if root.isSome then _ else [], commandLine⟩, htool, hmade, ⟨rows, hall, rfl⟩, rfl, rfl⟩

/-- The root of a bill is the first project. It has no need, and all components are needed for it. -/
theorem exists_root (h : make lib projects entries commandLine = .ok b) {p : Project} (hp : projects.head? = some p) :
    ∃ root, b.root = some root ∧ lib.projectAddress? p = some root.address ∧ b.needed = b.components := by
  obtain ⟨-, hmade, -, hneeded, -⟩ := make_ok_iff.1 h
  have hrel := Except.mapM_option_ok_iff.1 hmade
  rw [hp] at hrel
  generalize b.root = root at hrel hneeded
  cases hrel
  rename_i c hc
  exact ⟨c, rfl, congrArg Except.toOption (ofPackage_ok hc).1, hneeded⟩

/-- No two components have the same address. -/
theorem nodup_addresses (h : make lib projects entries commandLine = .ok b) : (b.components.map (·.address)).Nodup := by
  obtain ⟨-, -, ⟨rows, -, hfirsts⟩, -⟩ := make_ok_iff.1 h
  rw [← hfirsts]
  unfold List.Nodup
  rw [List.pairwise_map]
  exact (pairwise_firstsBy _ rows).imp fun hne => beq_eq_false_iff_ne.1 hne

/-- The component of an address is that of the first entry with the address. -/
theorem exists_entry_of_mem (h : make lib projects entries commandLine = .ok b) {c : Component} (hc : c ∈ b.components) :
    ∃ e, entries.find? (lib.addressOf? · == some c.address) = some e ∧ Component.ofEntry lib e = .ok c := by
  obtain ⟨-, -, ⟨rows, hrows, hfirsts⟩, -⟩ := make_ok_iff.1 h
  rw [← hfirsts] at hc
  exact exists_find?_of_rows hrows (find?_of_mem_firstsBy Component.address hc)

/-- The addresses of the components are those of the entries. -/
theorem exists_component_iff (h : make lib projects entries commandLine = .ok b) {address : String} :
    (∃ c ∈ b.components, c.address = address) ↔ ∃ e ∈ entries, lib.addressOf? e = some address := by
  obtain ⟨-, -, ⟨rows, hrows, hfirsts⟩, -⟩ := make_ok_iff.1 h
  rw [← address_mem_rows_iff hrows, ← hfirsts]
  constructor
  · rintro ⟨c, hc, haddress⟩
    exact ⟨c, mem_of_mem_firstsBy hc, haddress⟩
  · rintro ⟨c, hc, rfl⟩
    obtain ⟨d, hd, hsame⟩ : ∃ d ∈ firstsBy (fun c d : Component => c.address == d.address) rows,
        (d.address == c.address) = true := exists_mem_firstsBy (by simp) hc
    exact ⟨d, hd, beq_iff_eq.1 hsame⟩

/-- Every bill is a proper one: its root is the only component without a need. -/
theorem isProper_make (h : make lib projects entries commandLine = .ok b) : b.IsProper where
  distinct := nodup_addresses h
  -- the root has no need, and each of the other components has one
  apart := by
    intro c hc hmem
    obtain ⟨-, hmade, -⟩ := make_ok_iff.1 h
    obtain ⟨e, -, hrow⟩ := exists_entry_of_mem h hmem
    have hrel := Except.mapM_option_ok_iff.1 hmade
    rw [Option.mem_def.1 hc] at hrel
    generalize projects.head? = p? at hrel
    cases hrel
    rename_i p hp
    exact (ofEntry_ok hrow).2.2 (ofPackage_ok hp).2
  needed := by
    obtain ⟨-, -, -, hneeded, -⟩ := make_ok_iff.1 h
    rw [hneeded]
    split
    · exact List.Subset.refl _
    · exact List.nil_subset _

/-! ## What the document says -/

variable {ref : Component → String} {d : Json}

/-- The items of the document are for the components of the bill. -/
theorem exists_item_iff (hd : Shows b ref d) {p : Json → Prop} {q : Component → Prop}
    (hpq : ∀ c item, Describes ref c item → (p item ↔ q c)) :
    (∃ item ∈ d.items "components", p item) ↔ ∃ c ∈ b.components, q c := by
  obtain ⟨item, hperm, hdescribes⟩ := hd.components
  constructor
  · rintro ⟨_, hitem, hp⟩
    obtain ⟨c, hc, rfl⟩ := List.mem_map.1 (hperm.mem_iff.1 hitem)
    exact ⟨c, hc, (hpq c _ (hdescribes c hc)).1 hp⟩
  · rintro ⟨c, hc, hq⟩
    exact ⟨item c, hperm.mem_iff.2 (List.mem_map_of_mem hc), (hpq c _ (hdescribes c hc)).2 hq⟩

/-- The components in the document have the addresses of the entries. -/
theorem exists_purl_iff (h : make lib projects entries commandLine = .ok b) (hd : Shows b ref d) {address : String} :
    (∃ item ∈ d.items "components", item.text? "purl" = some address) ↔
      ∃ e ∈ entries, lib.addressOf? e = some address := by
  refine (exists_item_iff hd fun c item hitem => ?_).trans (exists_component_iff h)
  rw [hitem.purl, Option.some_inj]

/-- No address stands twice among the components of the document. -/
theorem nodup_purls (h : make lib projects entries commandLine = .ok b) (hd : Shows b ref d) :
    ((d.items "components").map (·.text? "purl")).Nodup := by
  obtain ⟨item, hperm, hdescribes⟩ := hd.components
  have hpurls : (b.components.map item).map (·.text? "purl") = (b.components.map (·.address)).map some := by
    rw [List.map_map, List.map_map]
    exact List.map_congr_left fun c hc => (hdescribes c hc).purl
  rw [(hperm.map _).nodup_iff, hpurls]
  exact (nodup_addresses h).map (Option.some_injective _)

/-- The document is about the first project, which depends on all components. -/
theorem exists_project (h : make lib projects entries commandLine = .ok b) (hd : Shows b ref d) {p : Project}
    (hp : projects.head? = some p) :
    ∃ root rootRef, d.project? = some root ∧ root.text? "bom-ref" = some rootRef ∧
      root.text? "purl" = lib.projectAddress? p ∧
      ∀ needed, d.DependsOn rootRef needed ↔ ∃ item ∈ d.items "components", item.text? "bom-ref" = some needed := by
  obtain ⟨c, hc, haddress, hneeded⟩ := exists_root h hp
  obtain ⟨root, hroot, hdescribes⟩ := hd.root c hc
  refine ⟨root, ref c, hroot, hdescribes.ref, hdescribes.purl.trans haddress.symm, fun needed => ?_⟩
  rw [hd.needed c hc, hneeded, List.mem_map]
  refine (exists_item_iff hd fun c item hitem => ?_).symm
  rw [hitem.ref, Option.some_inj]

/-- A component in the document has one flag for a conflict, that of the first entry with its address. -/
theorem exists_first_entry (h : make lib projects entries commandLine = .ok b) (hd : Shows b ref d) {item : Json}
    (hitem : item ∈ d.items "components") :
    ∃ e, entries.find? (lib.addressOf? · == item.text? "purl") = some e ∧
      (item.Says "depversions:conflict" "true" ↔ e.hasConflict = true) ∧
      (item.Says "depversions:conflict" "false" ↔ e.hasConflict = false) := by
  obtain ⟨item', hperm, hdescribes⟩ := hd.components
  obtain ⟨c, hc, rfl⟩ := List.mem_map.1 (hperm.mem_iff.1 hitem)
  -- the item is that of a component, which was made of the first entry with its address
  obtain ⟨e, he, hrow⟩ := exists_entry_of_mem h hc
  have hproperties := (hdescribes c hc).properties "depversions:conflict"
  rw [(ofEntry_ok hrow).2.1] at hproperties
  refine ⟨e, ?_, ?_, ?_⟩
  · rw [(hdescribes c hc).purl]
    exact he
  · rw [hproperties "true" (by decide), mem_propertiesOf_iff]
    cases e.hasConflict <;> simp
  · rw [hproperties "false" (by decide), mem_propertiesOf_iff]
    cases e.hasConflict <;> simp

end Bill

/-- The document of a report is that of a proper bill. -/
theorem document_ok {lib : Library} (hlib : lib.Documented) {projects : List Project} {entries : List Entry}
    {commandLine : String} {d : Json} (h : document lib projects entries commandLine = .ok d) :
    ∃ b ref, Bill.make lib projects entries commandLine = .ok b ∧ Shows b ref d := by
  obtain ⟨b, hb, rfl⟩ := Except.map_ok_iff.1 h
  -- a bill that was made is proper, which is all that writing asks for
  obtain ⟨ref, hshows⟩ := hlib.write b (Bill.isProper_make hb)
  exact ⟨b, ref, hb, hshows⟩

/-- There is a document just if the library has addresses for the first project and all entries. -/
theorem exists_document_iff {lib : Library} (hlib : lib.Documented) (projects : List Project) (entries : List Entry)
    (commandLine : String) :
    (∃ d, document lib projects entries commandLine = .ok d) ↔
      (∀ p ∈ projects.head?, (lib.projectAddress? p).isSome = true) ∧
        ∀ e ∈ entries, (lib.addressOf? e).isSome = true := by
  -- the tool is named by the program itself, so that it always has an address
  have htool : ∃ address, lib.address .tool = .ok address := hlib.address .tool (by decide)
  have hmade : (∃ d, document lib projects entries commandLine = .ok d) ↔
      ∃ b, Bill.make lib projects entries commandLine = .ok b := by
    constructor
    · rintro ⟨d, hd⟩
      obtain ⟨b, hb, -⟩ := Except.map_ok_iff.1 hd
      exact ⟨b, hb⟩
    · rintro ⟨b, hb⟩
      exact ⟨lib.write b, Except.map_ok_iff.2 ⟨b, hb, rfl⟩⟩
  rw [hmade, Bill.exists_make_iff, and_iff_right htool]
  unfold Library.projectAddress? Library.addressOf?
  simp only [Except.isSome_toOption_iff]

/-- What the document of a report says, whatever library writes it. There is one if the first project and all entries have
names, and exactly if the library has addresses for them. The document

* has one component for every package address of an entry, and no other components,
* is about the first project, if there is one, which depends on all the components and on nothing else,
* and gives each component one flag for a conflict: whether the first entry with the address of the component has one. -/
theorem document_says {lib : Library} (hlib : lib.Documented) (projects : List Project) (entries : List Entry)
    (commandLine : String) :
    ((∀ p ∈ projects.head?, IsNamed p.name) → (∀ e ∈ entries, IsNamed e.name.name) →
      ∃ d, document lib projects entries commandLine = .ok d) ∧
    ((∃ d, document lib projects entries commandLine = .ok d) ↔
      (∀ p ∈ projects.head?, (lib.projectAddress? p).isSome = true) ∧
        ∀ e ∈ entries, (lib.addressOf? e).isSome = true) ∧
    ∀ d, document lib projects entries commandLine = .ok d →
      ((d.items "components").map (·.text? "purl")).Nodup ∧
      (∀ address, (∃ item ∈ d.items "components", item.text? "purl" = some address) ↔
        ∃ e ∈ entries, lib.addressOf? e = some address) ∧
      (∀ p ∈ projects.head?, ∃ root rootRef, d.project? = some root ∧ root.text? "bom-ref" = some rootRef ∧
        root.text? "purl" = lib.projectAddress? p ∧
        ∀ needed, d.DependsOn rootRef needed ↔ ∃ item ∈ d.items "components", item.text? "bom-ref" = some needed) ∧
      ∀ item ∈ d.items "components", ∃ e, entries.find? (lib.addressOf? · == item.text? "purl") = some e ∧
        (item.Says "depversions:conflict" "true" ↔ e.hasConflict = true) ∧
        (item.Says "depversions:conflict" "false" ↔ e.hasConflict = false) := by
  have hexists := exists_document_iff hlib projects entries commandLine
  refine ⟨fun hprojects hentries => hexists.2 ⟨fun p hp => ?_, fun e he => ?_⟩, hexists, fun d hd => ?_⟩
  · exact Except.isSome_toOption_iff.2 (hlib.address _ (hprojects p hp))
  · exact Except.isSome_toOption_iff.2 (hlib.address _ (hentries e he))
  -- the document shows a bill, of which all this is known
  · obtain ⟨b, ref, hb, hshows⟩ := document_ok hlib hd
    exact ⟨Bill.nodup_purls hb hshows, fun address => Bill.exists_purl_iff hb hshows,
      fun p hp => Bill.exists_project hb hshows hp, fun item hitem => Bill.exists_first_entry hb hshows hitem⟩

/-! ## Two modules with one library -/

namespace Modules

def modules : List Project :=
  [{ group := "g", name := "app", version := "1" }, { group := "g", name := "tool", version := "1" }]

/-- A library as the first module uses it, without a conflict. -/
def calm : Entry :=
  { name := { group := "g", name := "a", variant := some ("jar", none) }
    resolved := ⟨"1.0"⟩
    scope := "compile"
    direct := true
    managed := false
    strategy := "default"
    groups := [⟨⟨"1.0"⟩, [{ requester := { group := "g", name := "app" }, direct := true }]⟩] }

/-- The same library as the second module uses it, which expects another version. -/
def troubled : Entry :=
  { calm with
    groups := [⟨⟨"2.0"⟩, [{ requester := { group := "g", name := "tool" }, direct := true, conflict := true }]⟩] }

/-- The report of both modules, written by the usual library. -/
theorem document_says_modules :
    Library.usual.Documented ∧
    ((∀ p ∈ modules.head?, IsNamed p.name) → (∀ e ∈ [calm, troubled], IsNamed e.name.name) →
      ∃ d, document .usual modules [calm, troubled] "" = .ok d) ∧
    ((∃ d, document .usual modules [calm, troubled] "" = .ok d) ↔
      (∀ p ∈ modules.head?, (Library.usual.projectAddress? p).isSome = true) ∧
        ∀ e ∈ [calm, troubled], (Library.usual.addressOf? e).isSome = true) ∧
    ∀ d, document .usual modules [calm, troubled] "" = .ok d →
      ((d.items "components").map (·.text? "purl")).Nodup ∧
      (∀ address, (∃ item ∈ d.items "components", item.text? "purl" = some address) ↔
        ∃ e ∈ [calm, troubled], Library.usual.addressOf? e = some address) ∧
      (∀ p ∈ modules.head?, ∃ root rootRef, d.project? = some root ∧ root.text? "bom-ref" = some rootRef ∧
        root.text? "purl" = Library.usual.projectAddress? p ∧
        ∀ needed, d.DependsOn rootRef needed ↔ ∃ item ∈ d.items "components", item.text? "bom-ref" = some needed) ∧
      ∀ item ∈ d.items "components",
        ∃ e, [calm, troubled].find? (Library.usual.addressOf? · == item.text? "purl") = some e ∧
          (item.Says "depversions:conflict" "true" ↔ e.hasConflict = true) ∧
          (item.Says "depversions:conflict" "false" ↔ e.hasConflict = false) :=
  ⟨Library.documented_usual, document_says Library.documented_usual modules [calm, troubled] ""⟩

/-- A library that does what it is documented to do gives the one component of both entries the flag of the first one. -/
theorem not_says_conflict :
    ¬ ∀ lib : Library, lib.Documented → ∀ d, document lib modules [calm, troubled] "" = .ok d →
      ∀ item ∈ d.items "components", (item.Says "depversions:conflict" "true" ↔
        ∃ e ∈ [calm, troubled], lib.addressOf? e = item.text? "purl" ∧ e.hasConflict = true) := by
  intro hall
  have hlib := Library.documented_usual
  obtain ⟨b, hb⟩ : ∃ b, Bill.make .usual modules [calm, troubled] "" = .ok b := ⟨_, rfl⟩
  have hd : document .usual modules [calm, troubled] "" = .ok b.toJson := by
    unfold document
    rw [hb]
    rfl
  have hshows := b.shows_toJson
  have htroubled : Library.usual.addressOf? troubled = some "pkg:maven/g/a@1.0" := by decide +kernel
  obtain ⟨item, hitem, hpurl⟩ := (Bill.exists_purl_iff hb hshows).2 ⟨troubled, by simp, htroubled⟩
  obtain ⟨e, hfirst, hflag, -⟩ := Bill.exists_first_entry hb hshows hitem
  -- the first entry with the address of the second module's library is that of the first module
  rw [hpurl, List.find?_cons_of_pos (by decide +kernel)] at hfirst
  obtain rfl := Option.some.inj hfirst
  have htrue := (hall .usual hlib _ hd item hitem).2 ⟨troubled, by simp, htroubled.trans hpurl.symm, by decide⟩
  exact absurd (hflag.1 htrue) (by decide)

end Modules

end VersionAudit.Report
