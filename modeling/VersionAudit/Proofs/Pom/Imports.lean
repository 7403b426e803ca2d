import VersionAudit.Proofs.Pom.Ancestry
import VersionAudit.Proofs.Pom.Header

/-!
# Imported management

The bills of materials that a model imports import further ones, in circles if they like. What has been imported once is
not imported again, so the imports of a model make up a tree.

1. `Source.Reads`: the management entries that a model reads, its own and those of its ancestors.
2. `Imports`: the imports of a model, each with the entries that the bill declares and with its own imports.
   `Imports.supplied` says which entry they supply.
3. `Source.Follows`: the imports of a model, if some bills are known already. `Follows.opens`: no bill is opened
   twice.
4. `Source.Manages`: the management of a model.
5. `Source.Gathers`: what taking some entries comes to. There is one rule for each kind of entry.
6. `makes_effective`: a run that gives a project gives it with the management of the model, and one that fails has
   followed the imports up to some place.
-/

namespace VersionAudit.Pom

open Xml (Element)

variable {σ : Type}

/-! ## Entries -/

/-- Whether an entry is for a group and name, of whatever type and classifier. -/
def isNamed (key : String) (d : Dependency) : Bool :=
  d.artifact.path == key

/-- The last of some entries that has a property. -/
def lastFor (p : Dependency → Bool) (entries : List Dependency) : Option Dependency :=
  entries.findRev? p

/-- Whether an entry stands for the management of a bill of materials. -/
def isBill (d : Dependency) : Bool :=
  d.scope == "import" && d.artifact.kind == "pom"

/-- The bill of materials that an entry stands for. -/
def billOf (d : Dependency) : Coordinates :=
  ⟨d.artifact.group, d.artifact.name, d.artifact.version⟩

/-- The bills among some entries. -/
def billsIn (entries : List Dependency) : List Coordinates :=
  (entries.filter isBill).map billOf

/-- The other entries. -/
def declaredIn (entries : List Dependency) : List Dependency :=
  entries.filter (!isBill ·)

/-- The entries that have a version, with their properties resolved. -/
def entriesOf (properties : Properties) (listed : List Element) : List Dependency :=
  (listed.filterMap (dependency? properties)).filter (·.artifact.version ≠ "")

/-- Entries are read one by one. -/
theorem entriesOf_cons (properties : Properties) (e : Element) (listed : List Element) :
    entriesOf properties (e :: listed) = entriesOf properties [e] ++ entriesOf properties listed := by
  unfold entriesOf
  rw [← List.filter_append, ← List.filterMap_append]
  rfl

section

variable {d : Dependency} (entries : List Dependency)

theorem billsIn_cons_of_bill (h : isBill d = true) : billsIn (d :: entries) = billOf d :: billsIn entries := by
  unfold billsIn
  rw [List.filter_cons_of_pos h, List.map_cons]

theorem declaredIn_cons_of_bill (h : isBill d = true) : declaredIn (d :: entries) = declaredIn entries :=
  List.filter_cons_of_neg (by simp [h])

theorem billsIn_cons_of_declared (h : isBill d = false) : billsIn (d :: entries) = billsIn entries :=
  congrArg (List.map billOf) (List.filter_cons_of_neg (by simp [h]))

theorem declaredIn_cons_of_declared (h : isBill d = false) : declaredIn (d :: entries) = d :: declaredIn entries :=
  List.filter_cons_of_pos (by simp [h])

end

/-- The last entry with a property is looked for from the end. -/
theorem lastFor_append (p : Dependency → Bool) (front back : List Dependency) :
    lastFor p (front ++ back) = (lastFor p back).or (lastFor p front) := by
  unfold lastFor
  rw [List.findRev?_eq_find?_reverse, List.findRev?_eq_find?_reverse, List.findRev?_eq_find?_reverse,
    List.reverse_append, List.find?_append]

/-- The first entry is found only if no later one has the property. -/
theorem lastFor_cons (p : Dependency → Bool) (d : Dependency) (entries : List Dependency) :
    lastFor p (d :: entries) = (lastFor p entries).or (if p d then some d else none) := by
  rw [← List.singleton_append, lastFor_append]
  refine congrArg _ ?_
  unfold lastFor
  rw [List.findRev?_eq_find?_reverse, List.reverse_singleton, List.find?_singleton]

/-! ## The imports of a model -/

/-- The imports of a model in the order in which they are read. One that is passed over supplies nothing, and where one
breaks off no further ones are read. -/
inductive Imports
  | done
  | passed (rest : Imports)
  | opened (bill : Coordinates) (declared : List Dependency) (within rest : Imports)
  | broken (bill : Coordinates) (within : Imports)

namespace Imports

/-- The entry with a property that imports supply: the last one that supplies one does. A bill supplies what it declares,
or else what its own imports supply. -/
def supplied (p : Dependency → Bool) : Imports → Option Dependency
  | done => none
  | passed rest => rest.supplied p
  | opened _ declared within rest => (rest.supplied p).or ((lastFor p declared).or (within.supplied p))
  | broken .. => none

/-- The bills that are opened, in order. -/
def bills : Imports → List Coordinates
  | done => []
  | passed rest => rest.bills
  | opened bill _ within rest => bill :: within.bills ++ rest.bills
  | broken bill within => bill :: within.bills

end Imports

/-- From the first list of known bills to the second one some bills are opened, all of them new ones, and none is opened
twice. -/
structure Opens (known after bills : List Coordinates) : Prop where
  nodup : bills.Nodup
  kept : known ⊆ after
  new : ∀ c ∈ bills, c ∉ known
  marked : bills ⊆ after

namespace Opens

variable {known mid after bills more : List Coordinates} {c : Coordinates}

/-- If no bill is opened, nothing is known that was not known before. -/
theorem none (known : List Coordinates) : Opens known known [] where
  nodup := List.nodup_nil
  kept := List.Subset.refl known
  new := fun _ hc => absurd hc List.not_mem_nil
  marked := List.nil_subset known

/-- A bill that is known, but not opened. -/
theorem passed (h : Opens (c :: known) after bills) : Opens known after bills where
  nodup := h.nodup
  kept := (List.cons_subset.1 h.kept).2
  new := fun c' hc' => List.not_mem_of_not_mem_cons (h.new c' hc')
  marked := h.marked

/-- A bill is opened before the imports that it has. -/
theorem cons (h : Opens (c :: known) after bills) (hnew : c ∉ known) : Opens known after (c :: bills) where
  nodup := List.nodup_cons.2 ⟨fun hc => h.new c hc (List.mem_cons_self ..), h.nodup⟩
  kept := h.passed.kept
  new := List.forall_mem_cons.2 ⟨hnew, h.passed.new⟩
  marked := List.cons_subset.2 ⟨(List.cons_subset.1 h.kept).1, h.marked⟩

/-- Bills opened one after the other: those opened later were not known, so that none is opened twice. -/
theorem append (h : Opens known mid bills) (h' : Opens mid after more) : Opens known after (bills ++ more) where
  nodup := List.nodup_append.2 ⟨h.nodup, h'.nodup, fun _ hc c' hc' hsame => h'.new c' hc' (hsame ▸ h.marked hc)⟩
  kept := List.Subset.trans h.kept h'.kept
  new := fun c hc => (List.mem_append.1 hc).elim (h.new c) fun hc hknown => h'.new c hc (h.kept hknown)
  marked := List.append_subset.2 ⟨List.Subset.trans h.marked h'.kept, h'.marked⟩

end Opens

namespace Source

variable (s : Source σ) (models : Models)

/-- A model has this header, and these are the entries of its ancestors, the oldest first, and of itself. -/
def Reads (d : Document) (h : Header) (entries : List Dependency) : Prop :=
  ∃ n ancestors, s.Ancestry models n d (.ok ancestors) ∧ d.header? ancestors = .ok h ∧
    entries = entriesOf h.properties ((ancestors.map (·.1) ++ [d.1]).flatMap listedEntries)

/-- Importing some bills one after the other, if the bills of the first list are known already. Those of the last list
are known at the end, which is that of the bills, or else the place where the reading breaks off. -/
inductive Follows : List Coordinates → List Coordinates → Imports → List Coordinates → Bool → Prop
  | done {known : List Coordinates} : Follows known [] .done known true
  | again {known bills after : List Coordinates} {c : Coordinates} {imports : Imports} {all : Bool} (old : c ∈ known)
    (rest : Follows known bills imports after all) : Follows known (c :: bills) (.passed imports) after all
  | missing {known bills after : List Coordinates} {c : Coordinates} {imports : Imports} {all : Bool} (new : c ∉ known)
    (none : models c = .ok none) (rest : Follows (c :: known) bills imports after all) :
    Follows known (c :: bills) (.passed imports) after all
  | opened {known bills mid after : List Coordinates} {c : Coordinates} {root : Element} {h : Header}
    {entries : List Dependency} {inner imports : Imports} {all : Bool} (new : c ∉ known) (some : models c = .ok (some root))
    (reads : s.Reads models (root, .central c) h entries) (within : Follows (c :: known) (billsIn entries) inner mid true)
    (rest : Follows mid bills imports after all) :
    Follows known (c :: bills) (.opened c (declaredIn entries) inner imports) after all
  | unread {known bills : List Coordinates} {c : Coordinates} (new : c ∉ known) (present : models c ≠ .ok none) :
    Follows known (c :: bills) (.broken c .done) (c :: known) false
  | broken {known bills after : List Coordinates} {c : Coordinates} {root : Element} {h : Header}
    {entries : List Dependency} {inner : Imports} (new : c ∉ known) (some : models c = .ok (some root))
    (reads : s.Reads models (root, .central c) h entries)
    (within : Follows (c :: known) (billsIn entries) inner after false) :
    Follows known (c :: bills) (.broken c inner) after false

/-- The management of a model, if some bills are known already: what it declares, or else what its imports supply. -/
def Manages (known : List Coordinates) (d : Document) (h : Header) (management : Management)
    (after : List Coordinates) : Prop :=
  ∃ entries imports, s.Reads models d h entries ∧ s.Follows models known (billsIn entries) imports after true ∧
    ∀ key, management.find? key = (lastFor (isNamed key) (declaredIn entries)).or (imports.supplied (isNamed key))

/-- The reading of a model breaks off, before its imports or within them. -/
def Breaks (known : List Coordinates) (d : Document) (imports : Imports) (after : List Coordinates) : Prop :=
  imports = .done ∧ after = known ∨
    ∃ h entries, s.Reads models d h entries ∧ s.Follows models known (billsIn entries) imports after false

variable {s models}

/-- What becomes of a bill: it is known, or it is marked as known and then opened, if the repository has it and it can be
read. -/
theorem run_importBill (hr : s.repository.Offers models) (expand : Document → Step (Memory σ) Project) (c : Coordinates)
    {l : Ledger (Memory σ)} (hl : l.state.Faithful models) :
    (c ∈ l.state.imported ∧ (importBill s expand c).run l = (.ok ∅, l)) ∨
      ∃ k : Ledger (Memory σ), c ∉ l.state.imported ∧ k.state.Faithful models ∧
        k.state.imported = c :: l.state.imported ∧ l.notes <+: k.notes ∧
          ((models c = .ok none ∧ (importBill s expand c).run l = (.ok ∅, k)) ∨
            (∃ reason, models c = .error reason ∧ (importBill s expand c).run l = (.error (.undecodable reason), k)) ∨
            ∃ root, models c = .ok (some root) ∧ (importBill s expand c).run l = (do
              return (← expand (root, .central c)).management).run k) := by
  unfold importBill
  rw [Step.run_bind, Step.run_read]
  dsimp only
  split
  · rename_i hold
    exact .inl ⟨List.contains_iff_mem.1 hold, rfl⟩
  · rename_i hnew
    rw [Step.run_bind, Step.run_write]
    dsimp only
    rw [Step.run_bind]
    have hgives := gives_modelOf hr c ⟨{ l.state with imported := c :: l.state.imported }, l.notes⟩ hl
    rcases hmodel : (modelOf s.repository c).run ⟨{ l.state with imported := c :: l.state.imported }, l.notes⟩ with
      ⟨model?, k⟩
    rw [hmodel] at hgives
    obtain ⟨rfl, hk, himported, hnotes⟩ := hgives
    have hnew : c ∉ l.state.imported := fun hmem => hnew (List.contains_iff_mem.2 hmem)
    unfold Models.root?
    -- the model is unreadable, missing or there; only a missing one leaves a note
    rcases hoffer : models c with reason | (_ | root)
    · exact .inr ⟨k, hnew, hk, himported, hnotes, .inr (.inl ⟨reason, rfl, rfl⟩)⟩
    · exact .inr ⟨⟨k.state, k.notes ++ [⟨.warning, .engine, "Failed to download BOM: " ++ c.text⟩]⟩, hnew, hk, himported,
        hnotes.trans (List.prefix_append _ _), .inl ⟨rfl, rfl⟩⟩
    · exact .inr ⟨k, hnew, hk, himported, hnotes, .inr (.inr ⟨root, rfl, rfl⟩)⟩

/-- What becomes of one entry: it has no version and is left out, it is declared, or it is imported. -/
theorem run_add (expand : Document → Step (Memory σ) Project) (properties : Properties) (m : Managed) (e : Element)
    {l : Ledger (Memory σ)} (hl : l.state.Faithful models) :
    ∃ k : Ledger (Memory σ), k.state.Faithful models ∧ k.state.imported = l.state.imported ∧
      ((entriesOf properties [e] = [] ∧ (Managed.add s expand properties m e).run l = (.ok m, k)) ∨
        ∃ d, entriesOf properties [e] = [d] ∧
          ((isBill d = false ∧ (Managed.add s expand properties m e).run l =
              (.ok { m with declared := m.declared.insert d.artifact.path d }, k)) ∨
            (isBill d = true ∧ (Managed.add s expand properties m e).run l = (do
              return { m with imported := m.imported.update (← importBill s expand (billOf d)) }).run k))) := by
  have hgives := gives_dependencyOf? properties e l hl
  unfold Managed.add
  rw [Step.run_bind]
  rcases hread : (dependencyOf? properties e).run l with ⟨d?, k⟩
  rw [hread] at hgives
  obtain ⟨rfl, hfaithful, himported, -⟩ := hgives
  refine ⟨k, hfaithful, himported, ?_⟩
  unfold entriesOf
  rw [List.filterMap_cons]
  -- an entry that names no dependency is left out, and so is one without a version
  cases dependency? properties e with
  | none => exact .inl ⟨rfl, rfl⟩
  | some d =>
    dsimp only
    split
    · rename_i hversion
      refine .inl ⟨?_, rfl⟩
      rw [List.filter_cons_of_neg (by simpa using hversion)]
      rfl
    · rename_i hversion
      refine .inr ⟨d, ?_, ?_⟩
      · rw [List.filter_cons_of_pos (by simpa using hversion)]
        rfl
      · split
        · rename_i hbill
          exact .inr ⟨by simpa [isBill] using hbill, rfl⟩
        · rename_i hbill
          exact .inl ⟨by simpa [isBill] using hbill, rfl⟩

/-- Making the project of a bill leaves a faithful memory, and gives it the management of the bill or breaks off. -/
def Expands (s : Source σ) (models : Models) (expand : Document → Step (Memory σ) Project) : Prop :=
  ∀ d l r l', l.state.Faithful models → (expand d).run l = (r, l') →
    l'.state.Faithful models ∧
      (∀ p, r = .ok p →
        p.management.Distinct ∧ ∃ h, s.Manages models l.state.imported d h p.management l'.state.imported) ∧
      ∀ e, r = .error e → ∃ imports, s.Breaks models l.state.imported d imports l'.state.imported

/-- What importing one bill comes to, if the first bills are known before it and the last ones after it. It gives a
management, which comes behind what later imports supply, or breaks off. -/
inductive Imported (s : Source σ) (models : Models) (c : Coordinates)
    (known after : List Coordinates) : Except Failure Management → Prop
  | supplied {management : Management} (distinct : management.Distinct)
    (behind : ∀ bills rest last all, s.Follows models after bills rest last all →
      ∃ imports, s.Follows models known (c :: bills) imports last all ∧
        ∀ key, imports.supplied (isNamed key) = (rest.supplied (isNamed key)).or (management.find? key)) :
    Imported s models c known after (.ok management)
  | failed {e : Failure} (h : ∀ bills, ∃ imports, s.Follows models known (c :: bills) imports after false) :
    Imported s models c known after (.error e)

/-- A bill that is passed over supplies nothing. -/
theorem Imported.passed {c : Coordinates} {known after : List Coordinates}
    (h : ∀ bills rest last all, s.Follows models after bills rest last all →
      s.Follows models known (c :: bills) (.passed rest) last all) : s.Imported models c known after (.ok ∅) := by
  refine .supplied OrderedMap.distinct_empty fun bills rest last all hrest => ⟨_, h _ _ _ _ hrest, fun key => ?_⟩
  rw [OrderedMap.find?_empty, Option.or_none]
  rfl

/-- What taking some entries comes to: the bills among them are imported, unless one breaks off. In what was taken before,
the last of the other entries for a name replaces the one that was there, and so does what the imports supply. -/
def Gathers (s : Source σ) (models : Models) (known : List Coordinates)
    (entries : List Dependency) (m : Managed) (r : Except Failure Managed) (after : List Coordinates) : Prop :=
  ∃ imports, s.Follows models known (billsIn entries) imports after r.isOk ∧
    ∀ m', r = .ok m' → m'.declared.Distinct ∧ m'.imported.Distinct ∧ ∀ key,
      m'.declared.find? key = (lastFor (isNamed key) (declaredIn entries)).or (m.declared.find? key) ∧
        m'.imported.find? key = (imports.supplied (isNamed key)).or (m.imported.find? key)

namespace Gathers

variable {known mid after : List Coordinates} {entries : List Dependency} {d : Dependency} {m : Managed}
  {r : Except Failure Managed}

/-- Without entries nothing changes. -/
theorem done (hdeclared : m.declared.Distinct) (himported : m.imported.Distinct) :
    s.Gathers models known [] m (.ok m) known := by
  refine ⟨.done, .done, fun m' hok => ?_⟩
  obtain rfl := Except.ok.inj hok
  exact ⟨hdeclared, himported, fun key => ⟨rfl, rfl⟩⟩

/-- An entry that is declared comes before those that follow, which may replace it. -/
theorem declare (hbill : isBill d = false)
    (h : s.Gathers models known entries { m with declared := m.declared.insert d.artifact.path d } r after) :
    s.Gathers models known (d :: entries) m r after := by
  obtain ⟨imports, hfollows, hfind⟩ := h
  refine ⟨imports, by rwa [billsIn_cons_of_declared _ hbill], fun m' hok => ?_⟩
  obtain ⟨hdeclared, himported, hfind⟩ := hfind m' hok
  refine ⟨hdeclared, himported, fun key => ⟨?_, (hfind key).2⟩⟩
  rw [(hfind key).1, declaredIn_cons_of_declared _ hbill, lastFor_cons, Option.or_assoc, OrderedMap.find?_insert]
  unfold isNamed
  split <;> rfl

/-- An import comes before those that follow, and what they supply comes before what it supplies. -/
theorem enclose {management : Management} (hbill : isBill d = true)
    (himport : s.Imported models (billOf d) known mid (.ok management))
    (h : s.Gathers models mid entries { m with imported := m.imported.update management } r after) :
    s.Gathers models known (d :: entries) m r after := by
  obtain ⟨rest, hfollows, hfind⟩ := h
  cases himport with
  | supplied distinct behind =>
    obtain ⟨imports, himports, hsupplied⟩ := behind _ _ _ _ hfollows
    refine ⟨imports, by rwa [billsIn_cons_of_bill _ hbill], fun m' hok => ?_⟩
    obtain ⟨hdeclared, himported, hfind⟩ := hfind m' hok
    rw [declaredIn_cons_of_bill _ hbill]
    refine ⟨hdeclared, himported, fun key => ⟨(hfind key).1, ?_⟩⟩
    rw [(hfind key).2, hsupplied, OrderedMap.find?_update _ distinct, Option.or_assoc]

/-- Nothing is taken behind an import that breaks off. -/
theorem broken {e : Failure} (entries : List Dependency) (m : Managed) (hbill : isBill d = true)
    (himport : s.Imported models (billOf d) known after (.error e)) :
    s.Gathers models known (d :: entries) m (.error e) after := by
  cases himport with
  | failed h =>
    obtain ⟨imports, hfollows⟩ := h (billsIn entries)
    exact ⟨imports, by rwa [billsIn_cons_of_bill _ hbill], fun m' hok => by cases hok⟩

end Gathers

section Runs

variable (hr : s.repository.Offers models) {expand : Document → Step (Memory σ) Project}
  (hexpand : Expands s models expand)
include hr hexpand

/-- A run that imports a bill gives what the bill supplies, and the bills it opened are known afterwards. -/
theorem imported_of_run_importBill {c : Coordinates} {l l' : Ledger (Memory σ)} {r : Except Failure Management}
    (hl : l.state.Faithful models) (hrun : (importBill s expand c).run l = (r, l')) :
    l'.state.Faithful models ∧ s.Imported models c l.state.imported l'.state.imported r := by
  rcases run_importBill hr expand c hl with ⟨hold, hknown⟩ | ⟨k, hnew, hk, himported, -, hcases⟩
  · obtain ⟨rfl, rfl⟩ := Prod.mk.inj (hknown.symm.trans hrun)
    exact ⟨hl, .passed fun _ _ _ _ hrest => .again hold hrest⟩
  · rcases hcases with ⟨hoffer, hmissing⟩ | ⟨reason, hoffer, hunread⟩ | ⟨root, hoffer, hopened⟩
    · obtain ⟨rfl, rfl⟩ := Prod.mk.inj (hmissing.symm.trans hrun)
      refine ⟨hk, .passed fun _ _ _ _ hrest => ?_⟩
      rw [himported] at hrest
      exact .missing hnew hoffer hrest
    · obtain ⟨rfl, rfl⟩ := Prod.mk.inj (hunread.symm.trans hrun)
      refine ⟨hk, .failed fun bills => ?_⟩
      rw [himported]
      exact ⟨_, .unread hnew (by rw [hoffer]; simp)⟩
    -- the bill is marked before it is opened, so within it the bill is known
    · rw [hopened, Step.run_bind] at hrun
      rcases hproject : (expand (root, .central c)).run k with ⟨r', k'⟩
      obtain ⟨hfaithful, hmanages, hbreaks⟩ := hexpand _ _ _ _ hk hproject
      rw [hproject] at hrun
      rw [himported] at hmanages hbreaks
      cases r' with
      | ok p =>
        obtain ⟨rfl, rfl⟩ := Prod.mk.inj hrun
        obtain ⟨hdistinct, h, entries, inner, hreads, hwithin, hfind⟩ := hmanages p rfl
        refine ⟨hfaithful, .supplied hdistinct fun bills rest last all hrest => ?_⟩
        refine ⟨_, .opened hnew hoffer hreads hwithin hrest, fun key => ?_⟩
        rw [hfind]
        rfl
      | error e =>
        obtain ⟨rfl, rfl⟩ := Prod.mk.inj hrun
        refine ⟨hfaithful, .failed fun bills => ?_⟩
        obtain ⟨imports, ⟨rfl, hafter⟩ | ⟨h, entries, hreads, hwithin⟩⟩ := hbreaks e rfl
        · rw [hafter]
          exact ⟨_, .unread hnew (by rw [hoffer]; simp)⟩
        · exact ⟨_, .broken hnew hoffer hreads hwithin⟩

/-- All entries of a model, one after the other. -/
theorem gathers_of_run_foldlM {properties : Properties} {listed : List Element} {m : Managed}
    {r : Except Failure Managed} {l l' : Ledger (Memory σ)} (hl : l.state.Faithful models)
    (hdeclared : m.declared.Distinct) (himported : m.imported.Distinct)
    (hrun : (listed.foldlM (Managed.add s expand properties) m).run l = (r, l')) :
    l'.state.Faithful models ∧
      s.Gathers models l.state.imported (entriesOf properties listed) m r l'.state.imported := by
  -- entry by entry; what is known and what was taken so far are handed on
  induction listed generalizing m l with
  | nil =>
    obtain ⟨rfl, rfl⟩ := Prod.mk.inj hrun
    exact ⟨hl, .done hdeclared himported⟩
  | cons e listed ih =>
    rw [List.foldlM_cons, Step.run_bind] at hrun
    obtain ⟨k, hk, hsame, hcases⟩ := run_add (s := s) expand properties m e hl
    rw [entriesOf_cons, ← hsame]
    rcases hcases with ⟨hentries, hfirst⟩ | ⟨d, hentries, ⟨hbill, hfirst⟩ | ⟨hbill, hfirst⟩⟩
    · rw [hfirst] at hrun
      rw [hentries]
      exact ih hk hdeclared himported hrun
    · rw [hfirst] at hrun
      obtain ⟨hl', hgathers⟩ := ih (m := { m with declared := m.declared.insert d.artifact.path d }) hk
        (OrderedMap.distinct_insert hdeclared _ _) himported hrun
      rw [hentries]
      exact ⟨hl', hgathers.declare hbill⟩
    · rw [hfirst, Step.run_bind] at hrun
      rcases himport : (importBill s expand (billOf d)).run k with ⟨r₁, l₁⟩
      obtain ⟨hl₁, hopened⟩ := imported_of_run_importBill hr hexpand hk himport
      rw [himport] at hrun
      rw [hentries]
      -- a bill that breaks off ends the reading of its importer, too
      cases r₁ with
      | error e =>
        obtain ⟨rfl, rfl⟩ := Prod.mk.inj hrun
        exact ⟨hl₁, .broken _ m hbill hopened⟩
      | ok management =>
        obtain ⟨hl', hgathers⟩ := ih (m := { m with imported := m.imported.update management }) hl₁ hdeclared
          (OrderedMap.distinct_update himported _) hrun
        exact ⟨hl', hgathers.enclose hbill hopened⟩

end Runs

/-- The first two parts of making a project are its ancestors and its header. -/
theorem Ancestry.gives_opening (hr : s.repository.Offers models) {n : Nat} {d : Document}
    {r : Except Failure (List Document)} (h : s.Ancestry models n d r) (hn : n < s.depth) :
    Gives models (s.opening d) (r >>= fun ancestors => (d.header? ancestors).map (ancestors, ·)) := by
  refine (h.gives_parents hr hn).bind fun ancestors _ => (gives_noteVersion ancestors d).bind_ok ?_
  exact (Gives.ofExcept _).bind_map fun h _ => .pure (ancestors, h)

/-- The first two parts show nothing of the memory. If they succeed, the entries of the model can be read. -/
theorem exists_gives_opening (hr : s.repository.Offers models) (d : Document) :
    ∃ x, Gives models (s.opening d) x ∧ ∀ ancestors h, x = .ok (ancestors, h) → s.Reads models d h
      (entriesOf h.properties ((ancestors.map (·.1) ++ [d.1]).flatMap listedEntries)) := by
  -- the parents are read to the end, or there are too many of them
  rcases exists_ancestry_or_tooDeep hr s.depth d with ⟨n, hn, found, hancestry⟩ | ⟨text, hdeep⟩
  · refine ⟨_, hancestry.gives_opening hr hn, fun ancestors h hok => ?_⟩
    cases found with
    | error e => cases hok
    | ok ancestors' =>
      change (d.header? ancestors').map (ancestors', ·) = _ at hok
      cases hheader : d.header? ancestors' with
      | error e =>
        rw [hheader] at hok
        cases hok
      | ok h' =>
        rw [hheader] at hok
        cases hok
        exact ⟨n, _, hancestry, hheader, rfl⟩
  · exact ⟨_, hdeep.bind_error _, fun ancestors h hok => by cases hok⟩

/-- Making a model leaves a faithful memory. It gives the project of the model with its management, or breaks off. -/
def Makes (s : Source σ) (models : Models)
    (make : Document → Step (Memory σ) (Project × Properties)) : Prop :=
  ∀ d l r l', l.state.Faithful models → (make d).run l = (r, l') →
    l'.state.Faithful models ∧
      (∀ p properties, r = .ok (p, properties) → p.management.Distinct ∧ ∃ h, p = d.projectOf h p.management ∧
        properties = h.properties ∧ s.Manages models l.state.imported d h p.management l'.state.imported) ∧
      ∀ e, r = .error e → ∃ imports, s.Breaks models l.state.imported d imports l'.state.imported

/-- A bill needs no more than the project of its model. -/
theorem Makes.expands {make : Document → Step (Memory σ) (Project × Properties)} (h : s.Makes models make) :
    s.Expands models fun bill => do return (← make bill).1 := by
  intro bill l r l' hl hrun
  rw [Step.run_bind] at hrun
  rcases hmake : (make bill).run l with ⟨r₁, k⟩
  obtain ⟨hk, hmanages, hbreaks⟩ := h bill l r₁ k hl hmake
  rw [hmake] at hrun
  -- what breaks off while the model is made breaks off the bill
  cases r₁ with
  | ok found =>
    obtain ⟨rfl, rfl⟩ := Prod.mk.inj hrun
    refine ⟨hk, fun p hok => ?_, fun e he => by cases he⟩
    obtain rfl := Except.ok.inj hok
    obtain ⟨hdistinct, header, -, -, hmanages⟩ := hmanages _ _ rfl
    exact ⟨hdistinct, header, hmanages⟩
  | error e =>
    obtain ⟨rfl, rfl⟩ := Prod.mk.inj hrun
    exact ⟨hk, fun p hok => (by cases hok), fun _ _ => hbreaks e rfl⟩

/-- What a run has done: it has made the project of the model with its management, or has broken off. -/
theorem makes_effective (hr : s.repository.Offers models) (depth : Nat) : s.Makes models (s.effective depth) := by
  induction depth with
  | zero =>
    intro d l r l' hl hrun
    obtain ⟨rfl, rfl⟩ := Prod.mk.inj hrun
    exact ⟨hl, fun p properties hok => (by cases hok), fun e he => ⟨.done, .inl ⟨rfl, rfl⟩⟩⟩
  | succ depth ih =>
    intro d l r l' hl hrun
    rw [effective_succ, Step.run_bind] at hrun
    -- the ancestors and the header leave the known bills as they are
    obtain ⟨x, hgives, hreads⟩ := exists_gives_opening hr d
    replace hgives := hgives l hl
    rcases hopening : (s.opening d).run l with ⟨r₁, k⟩
    rw [hopening] at hgives hrun
    obtain ⟨rfl, hk, himported, -⟩ := hgives
    rw [← himported]
    cases r₁ with
    | error e =>
      obtain ⟨rfl, rfl⟩ := Prod.mk.inj hrun
      exact ⟨hk, fun p properties hok => (by cases hok), fun _ _ => ⟨.done, .inl ⟨rfl, rfl⟩⟩⟩
    | ok found =>
      obtain ⟨ancestors, h⟩ := found
      replace hreads := hreads ancestors h rfl
      dsimp only at hrun
      rw [Step.run_bind] at hrun
      rcases hfold : (((ancestors.map (·.1) ++ [d.1]).flatMap listedEntries).foldlM
        (Managed.add s (fun bill => do return (← s.effective depth bill).1) h.properties) {}).run k with ⟨r₂, k'⟩
      obtain ⟨hk', imports, hfollows, hmanaged⟩ :=
        gathers_of_run_foldlM hr ih.expands hk OrderedMap.distinct_empty OrderedMap.distinct_empty hfold
      rw [hfold] at hrun
      cases r₂ with
      | error e =>
        obtain ⟨rfl, rfl⟩ := Prod.mk.inj hrun
        exact ⟨hk', fun p properties hok => (by cases hok), fun _ _ => ⟨imports, .inr ⟨h, _, hreads, hfollows⟩⟩⟩
      | ok managed =>
        obtain ⟨rfl, rfl⟩ := Prod.mk.inj hrun
        obtain ⟨hdeclared, himports, hfind⟩ := hmanaged managed rfl
        refine ⟨hk', fun p properties hok => ?_, fun e he => by cases he⟩
        obtain ⟨rfl, rfl⟩ := Prod.mk.inj (Except.ok.inj hok)
        refine ⟨OrderedMap.distinct_update himports _, h, rfl, rfl, _, imports, hreads, hfollows, fun key => ?_⟩
        unfold Document.projectOf Managed.effective
        rw [OrderedMap.find?_update _ hdeclared, (hfind key).1, (hfind key).2, OrderedMap.find?_empty, Option.or_none,
          Option.or_none]

end Source

end VersionAudit.Pom
