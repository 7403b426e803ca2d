import Mathlib.Data.List.Perm.Subperm
import VersionAudit.Pom.Reactor
import VersionAudit.Proofs.Graph.DepthFirst
import VersionAudit.Proofs.Pom.Steady

/-!
# All projects of a build

A model lists modules by paths, which may lead to one place in several ways, and in circles.

1. `Source.modulePlaces`: the places of a model's modules that are there. `missingModules`: the notes on the others.
2. `Source.Builds`: a place has a model, and this is its project.
3. `Visits`: what reading some places and all that they lead to has done. `collect_visits`: one place, from the rules of
   `Visits` and by the number of files that are left.
4. `readReactor_depthFirst`: the projects of a build.
-/

namespace VersionAudit.Pom

open Xml (Element)

variable {σ : Type} {models : Models}

namespace Source

variable (s : Source σ)

/-! ## Modules -/

/-- The model at a place. -/
def modelIn? (place : Location) : Option Element :=
  (s.files.content? place).bind fun content => (s.repository.read content).toOption.join

/-- The place of a module that a model lists. -/
def moduleAt (place : Location) (module : String) : Location :=
  s.files.modelAt (place.parent.join module)

/-- The places of the modules that a model lists, as far as they are there. -/
def modulePlaces (place : Location) : List Location :=
  (((s.modelIn? place).toList.flatMap modulesOf).map (s.moduleAt place)).filter s.files.isThere

/-- The note on a module that is not there. -/
def missingModule (place : Location) (p : Project) (module : String) : Note :=
  ⟨.warning, .engine,
    "Module " ++ module ++ " of " ++ p.text ++ " not found at " ++ (s.moduleAt place module).text⟩

/-- The notes on the modules that a model lists and that are not there. -/
def missingModules (found : Location × Project) : List Note :=
  (found.2.modules.filter fun module => !s.files.isThere (s.moduleAt found.1 module)).map
    (s.missingModule found.1 found.2)

/-- The model at a place can be read, and its project made. -/
def Builds (models : Models) (place : Location) (p : Project) : Prop :=
  ∃ root l l', s.modelIn? place = some root ∧ l.state.Faithful models ∧
    (s.project (root, .file place)).run l = (.ok p, l')

variable {s}

namespace Builds

variable {place : Location} {p : Project}

/-- The project is made whatever was read before. -/
theorem run (hr : s.repository.Offers models) (h : s.Builds models place p) {k : Ledger (Memory σ)}
    (hk : k.state.Faithful models) :
    ∃ root k', s.modelIn? place = some root ∧ (s.project (root, .file place)).run k = (.ok p, k') ∧
      k'.state.Faithful models ∧ k.notes <+: k'.notes := by
  obtain ⟨root, l, l', hroot, hl, hrun⟩ := h
  obtain ⟨hsame, hk', hnotes⟩ := run_project_alike hr (root, .file place) hl hk
  rw [hrun] at hsame
  exact ⟨root, ((s.project (root, .file place)).run k).2, hroot, Prod.ext hsame.symm rfl, hk', hnotes⟩

/-- What is built is a file of the tree. -/
theorem mem_nodes (h : s.Builds models place p) : place ∈ s.files.nodes.map (·.1) := by
  obtain ⟨root, l, l', hroot, -⟩ := h
  obtain ⟨content, hcontent, -⟩ := Option.bind_eq_some_iff.1 hroot
  exact List.mem_map.2 ⟨_, FileTree.mem_nodes_of_content? hcontent, rfl⟩

/-- The project has the path of its place, and its modules are at the places that the model leads to. -/
theorem location_modules (hr : s.repository.Offers models) (h : s.Builds models place p) :
    p.location = some place.text ∧ s.modulePlaces place = (p.modules.map (s.moduleAt place)).filter s.files.isThere := by
  obtain ⟨root, l, l', hroot, hl, hrun⟩ := h
  obtain ⟨header, after, -, hproject⟩ := exists_manages_of_run_project hr hl hrun
  refine ⟨congrArg Project.location hproject, ?_⟩
  unfold modulePlaces
  rw [hroot, Option.toList_some, List.flatMap_singleton, congrArg Project.modules hproject]
  rfl

end Builds

/-! ## Reading -/

/-- Reading some places has found these ones with their projects, in this order. At least the notes of the list and those
on the missing modules of the projects have been added. -/
structure Visits (s : Source σ) (models : Models) (start : Found) (places : List Location)
    (missing : List Note) (found : List (Location × Project)) (l : Ledger (Memory σ)) (finish : Found)
    (l' : Ledger (Memory σ)) : Prop where
  projects : finish.projects = start.projects ++ found.map (·.2)
  visited : finish.visited = (found.map (·.1)).reverse ++ start.visited
  order : DepthFirst s.modulePlaces start.visited places (found.map (·.1))
  builds : ∀ f ∈ found, s.Builds models f.1 f.2
  faithful : l'.state.Faithful models
  notes : ∃ added, l'.notes = l.notes ++ added ∧ (missing ++ found.flatMap s.missingModules).Subperm added

namespace Visits

variable {start mid finish : Found} {places more : List Location} {missing : List Note}
  {found found' : List (Location × Project)} {l k l' : Ledger (Memory σ)}

/-- Where nothing is left to read nothing changes. -/
theorem done (hl : l.state.Faithful models) (order : DepthFirst s.modulePlaces start.visited places []) :
    s.Visits models start places [] [] l start l where
  projects := by rw [List.map_nil, List.append_nil]
  visited := rfl
  order := order
  builds := fun f hf => absurd hf List.not_mem_nil
  faithful := hl
  notes := ⟨[], by rw [List.append_nil], List.Subperm.refl []⟩

/-- Reading on. -/
theorem append (h : s.Visits models start places [] found l mid k) (h' : s.Visits models mid more missing found' k finish l') :
    s.Visits models start (places ++ more) missing (found ++ found') l finish l' where
  projects := by rw [h'.projects, h.projects, List.map_append, List.append_assoc]
  visited := by rw [h'.visited, h.visited, List.map_append, List.reverse_append, List.append_assoc]
  order := by
    rw [List.map_append]
    exact h.order.append (h.visited ▸ h'.order)
  builds := fun f hf => (List.mem_append.1 hf).elim (h.builds f) (h'.builds f)
  faithful := h'.faithful
  -- the notes of the second part come behind those of the first, as the missing modules do
  notes := by
    obtain ⟨added, hadded, hsub⟩ := h.notes
    obtain ⟨added', hadded', hsub'⟩ := h'.notes
    refine ⟨added ++ added', by rw [hadded', hadded, List.append_assoc], ?_⟩
    rw [List.nil_append] at hsub
    have hperm : (missing ++ (found ++ found').flatMap s.missingModules).Perm
        (found.flatMap s.missingModules ++ (missing ++ found'.flatMap s.missingModules)) := by
      rw [List.flatMap_append, ← List.append_assoc, ← List.append_assoc]
      exact List.perm_append_comm.append_right _
    exact hperm.subperm.trans (hsub.append hsub')

/-- A note before the others. -/
theorem note {n : Note} (h : s.Visits models start places missing found ⟨l.state, l.notes ++ [n]⟩ finish l') :
    s.Visits models start places (n :: missing) found l finish l' where
  projects := h.projects
  visited := h.visited
  order := h.order
  builds := h.builds
  faithful := h.faithful
  notes := by
    obtain ⟨added, hadded, hsub⟩ := h.notes
    exact ⟨n :: added, by rw [hadded, List.append_assoc]; rfl, (List.subperm_cons n).2 hsub⟩

/-- A place is read before the modules of its project. -/
theorem enter {place : Location} {p : Project} (hnew : place ∉ start.visited) (hplace : s.Builds models place p)
    (hnotes : l.notes <+: k.notes)
    (h : s.Visits models ⟨start.projects ++ [p], place :: start.visited⟩ (s.modulePlaces place) (s.missingModules (place, p))
      found k finish l') :
    s.Visits models start [place] [] ((place, p) :: found) l finish l' where
  projects := by rw [h.projects, List.append_assoc, List.map_cons, List.singleton_append]
  visited := by rw [h.visited, List.map_cons, List.reverse_cons, List.append_assoc, List.singleton_append]
  order := .visit hnew h.order
  builds := List.forall_mem_cons.2 ⟨hplace, h.builds⟩
  faithful := h.faithful
  notes := by
    obtain ⟨before, hbefore⟩ := hnotes
    obtain ⟨added, hadded, hsub⟩ := h.notes
    refine ⟨before ++ added, by rw [hadded, ← hbefore, List.append_assoc], ?_⟩
    exact hsub.trans (List.sublist_append_right before added).subperm

end Visits

/-- What is done with one module of a project. -/
def turn (s : Source σ) (fuel : Nat) (place : Location) (p : Project) (found : Found) (module : String) :
    Step (Memory σ) Found :=
  if s.files.isThere (s.moduleAt place module) then s.collect fuel found (s.moduleAt place module)
  else do
    Step.warn (s.missingModule place p module).text
    return found

section Runs

variable (hr : s.repository.Offers models) {reached : Location → Prop}
  (hbuilds : ∀ place, reached place → ∃ p, s.Builds models place p)
  (hclosed : ∀ place, reached place → ∀ x ∈ s.modulePlaces place, reached x)

/-- Reading the modules of a project one after the other, if each place is read so. -/
theorem foldlM_visits {fuel : Nat} {place : Location} {p : Project}
    (hcollect : ∀ start x, ∀ l : Ledger (Memory σ), reached x → l.state.Faithful models →
      remaining (s.files.nodes.map (·.1)) start.visited < fuel →
        ∃ found finish l', (s.collect fuel start x).run l = (.ok finish, l') ∧ s.Visits models start [x] [] found l finish l')
    (modules : List String) (hreached : ∀ x ∈ (modules.map (s.moduleAt place)).filter s.files.isThere, reached x)
    (start : Found) {l : Ledger (Memory σ)} (hl : l.state.Faithful models)
    (hroom : remaining (s.files.nodes.map (·.1)) start.visited < fuel) :
    ∃ found finish l',
      (modules.foldlM (s.turn fuel place p) start).run l = (.ok finish, l') ∧
        s.Visits models start ((modules.map (s.moduleAt place)).filter s.files.isThere)
          ((modules.filter fun module => !s.files.isThere (s.moduleAt place module)).map (s.missingModule place p))
          found l finish l' := by
  -- module by module, as long as fewer places are left than the fuel reaches
  induction modules generalizing start l with
  | nil => exact ⟨[], start, l, rfl, .done hl .done⟩
  | cons module modules ih =>
    rw [List.map_cons] at hreached ⊢
    rw [List.foldlM_cons, Step.run_bind]
    -- a module that is there is collected with all it leads to, and a missing one is noted
    by_cases hthere : s.files.isThere (s.moduleAt place module) = true
    · rw [List.filter_cons_of_pos hthere] at hreached ⊢
      rw [List.filter_cons_of_neg (by simp [hthere])]
      rw [List.forall_mem_cons] at hreached
      obtain ⟨found, mid, k, hrun, hvisits⟩ := hcollect start (s.moduleAt place module) l hreached.1 hl hroom
      have hturn : (s.turn fuel place p start module).run l = (.ok mid, k) := by
        unfold turn
        rw [if_pos hthere]
        exact hrun
      have hsub : start.visited ⊆ mid.visited := hvisits.visited ▸ List.subset_append_right _ _
      obtain ⟨found', finish, l', hrest, hvisits'⟩ :=
        ih hreached.2 mid hvisits.faithful (Nat.lt_of_le_of_lt (remaining_mono _ hsub) hroom)
      rw [hturn]
      exact ⟨found ++ found', finish, l', hrest, hvisits.append hvisits'⟩
    · rw [List.filter_cons_of_neg hthere] at hreached ⊢
      rw [List.filter_cons_of_pos (by simp [hthere]), List.map_cons]
      have hturn : (s.turn fuel place p start module).run l =
          (.ok start, ⟨l.state, l.notes ++ [s.missingModule place p module]⟩) := by
        unfold turn
        rw [if_neg hthere]
        rfl
      obtain ⟨found, finish, l', hrest, hvisits⟩ :=
        ih hreached start (l := ⟨l.state, l.notes ++ [s.missingModule place p module]⟩) hl hroom
      rw [hturn]
      exact ⟨found, finish, l', hrest, hvisits.note⟩

include hr hbuilds hclosed

/-- Reading a place and all that it leads to. -/
theorem collect_visits (fuel : Nat) (start : Found) (place : Location) (l : Ledger (Memory σ)) (hplace : reached place)
    (hl : l.state.Faithful models) (hroom : remaining (s.files.nodes.map (·.1)) start.visited < fuel) :
    ∃ found finish l', (s.collect fuel start place).run l = (.ok finish, l') ∧
      s.Visits models start [place] [] found l finish l' := by
  induction fuel generalizing start place l with
  | zero => exact absurd hroom (Nat.not_lt_zero _)
  | succ fuel ih =>
    unfold collect
    by_cases hold : place ∈ start.visited
    · rw [if_pos (List.contains_iff_mem.2 hold)]
      exact ⟨[], start, l, rfl, .done hl (.again hold .done)⟩
    · rw [if_neg fun h => hold (List.contains_iff_mem.1 h)]
      obtain ⟨p, hp⟩ := hbuilds place hplace
      obtain ⟨root, k, hroot, hproject, hk, hnotes⟩ := hp.run hr hl
      have hread : s.readFile place.text (some place) = .ok root := by
        obtain ⟨content, hcontent, hread⟩ := Option.bind_eq_some_iff.1 hroot
        unfold readFile Repository.root?
        rw [Option.bind_some, hcontent]
        dsimp only
        rw [Except.of_toOption (Option.join_eq_some_iff.1 hread)]
        rfl
      -- the place is marked before its modules are read, so fewer places remain for them
      have hplaces := (hp.location_modules hr).2
      have hless : remaining (s.files.nodes.map (·.1)) (place :: start.visited) < fuel :=
        Nat.lt_of_lt_of_le (remaining_cons_lt hp.mem_nodes hold) (Nat.le_of_lt_succ hroom)
      obtain ⟨found, finish, l', hrun, hvisits⟩ :=
        foldlM_visits (p := p) ih p.modules (hplaces ▸ hclosed place hplace)
          ⟨start.projects ++ [p], place :: start.visited⟩ hk hless
      rw [← hplaces] at hvisits
      refine ⟨(place, p) :: found, finish, l', ?_, .enter hold hp hnotes hvisits⟩
      rw [hread]
      simp only [Step.run_bind, Step.run_ofExcept, hproject]
      exact hrun

end Runs

/-- A model lists a module that is at the second place. -/
def LeadsTo (s : Source σ) (place x : Location) : Prop :=
  x ∈ s.modulePlaces place

/-- From the place where the program works, all paths lead to proper places. -/
theorem isProper_of_reached (hworking : s.files.working.IsProper) {path : String} {place : Location}
    (h : Relation.ReflTransGen s.LeadsTo (s.files.working.join path) place) : place.IsProper := by
  induction h with
  | refl => exact hworking.join path
  | tail _ hstep ih =>
    obtain ⟨module, -, rfl⟩ := List.mem_map.1 (List.mem_filter.1 hstep).1
    exact s.files.isProper_modelAt (ih.parent.join module)

/-- The projects of a build, if all models that it leads to give projects. It starts with the given one, and goes on depth
first, through the modules in the order in which they are listed. Each place is read once, however often and by whatever
path it is listed, and the modules that are not there are noted. -/
theorem readReactor_depthFirst (hr : s.repository.Offers models) (hworking : s.files.working.IsProper) {path : String}
    (hbuilds : ∀ place, Relation.ReflTransGen s.LeadsTo (s.files.working.join path) place → ∃ p, s.Builds models place p)
    {l : Ledger (Memory σ)} (hl : l.state.Faithful models) :
    ∃ (found : List (Location × Project)) (l' : Ledger (Memory σ)) (added : List Note),
      (s.readReactor path).run l = (.ok (found.map (·.2)), l') ∧ l'.notes = l.notes ++ added ∧
        (found.map (·.2.location)).Nodup ∧ (found.map (·.1)).head? = some (s.files.working.join path) ∧
        (∀ place, place ∈ found.map (·.1) ↔ Relation.ReflTransGen s.LeadsTo (s.files.working.join path) place) ∧
        DepthFirst s.modulePlaces [] [s.files.working.join path] (found.map (·.1)) ∧
        (∀ f ∈ found, s.Builds models f.1 f.2 ∧ f.2.location = some f.1.text) ∧
        (found.flatMap s.missingModules).Subperm added := by
  have hroom : remaining (s.files.nodes.map (·.1)) ([] : List Location) < s.files.nodes.length + 2 := by
    have hle := remaining_le_length (s.files.nodes.map (·.1)) ([] : List Location)
    rw [List.length_map] at hle
    omega
  obtain ⟨found, finish, l', hrun, hvisits⟩ :=
    collect_visits hr hbuilds (fun _ hreach _ hstep => hreach.tail hstep) _ {} _ l .refl hl hroom
  obtain ⟨added, hadded, hmissing⟩ := hvisits.notes
  have hreached := hvisits.order.mem_iff
  have hlocation : ∀ f ∈ found, s.Builds models f.1 f.2 ∧ f.2.location = some f.1.text := fun f hf =>
    ⟨hvisits.builds f hf, ((hvisits.builds f hf).location_modules hr).1⟩
  refine ⟨found, l', added, ?_, hadded, ?_, hvisits.order.head?_eq, hreached, hvisits.order, hlocation, hmissing⟩
  · unfold readReactor
    rw [Step.run_bind, hrun]
    exact congrArg (fun projects => (Except.ok projects, l')) (hvisits.projects.trans (List.nil_append _))
  -- the places differ, and proper places that differ have different paths
  · have hproper : ∀ f ∈ found, f.1.IsProper := fun f hf =>
      isProper_of_reached hworking ((hreached f.1).1 (List.mem_map_of_mem hf))
    have hnodup := hvisits.order.nodup.1
    refine List.Nodup.map_on (fun f hf f' hf' hsame => ?_) hnodup.of_map
    rw [(hlocation f hf).2, (hlocation f' hf').2] at hsame
    exact List.inj_on_of_nodup_map hnodup hf hf'
      ((hproper f hf).eq_of_text_eq (hproper f' hf') (Option.some_inj.1 hsame))

end Source

/-! ## A build in circles -/

namespace Ring

def root : Location := ⟨["w", "pom.xml"]⟩

def upper : Location := ⟨["w", "a", "pom.xml"]⟩

def lower : Location := ⟨["w", "a", "b.xml"]⟩

/-- The root lists a module twice and one that is not there. The module lists the root and a file beside it. -/
def source : Source Unit where
  files :=
    { working := ⟨["w"]⟩
      nodes := [
        (root, .file "<p><artifactId>r</artifactId><groupId>g</groupId><modules><module>a</module>
          <module>x</module><module>a/pom.xml</module></modules></p>".toUTF8),
        (upper, .file "<p><artifactId>a</artifactId><groupId>g</groupId><modules><module>..</module>
          <module>b.xml</module></modules></p>".toUTF8),
        (lower, .file "<p><artifactId>b</artifactId><groupId>g</groupId></p>".toUTF8)] }
  repository := .holding []

/-- The three files lead to each other, and each gives a project. -/
theorem closed_isOk_places : ∀ place ∈ [root, upper, lower],
    (∀ x ∈ source.modulePlaces place, x ∈ [root, upper, lower]) ∧
      ((source.modelIn? place).map fun e =>
        ((source.project (e, .file place)).run ⟨{ repository := () }, []⟩).1.isOk) = some true := by
  decide +kernel

/-- Nothing but the three files is reached, and each gives a project. -/
theorem builds_reached {place : Location}
    (h : Relation.ReflTransGen source.LeadsTo (source.files.working.join "pom.xml") place) :
    ∃ p, source.Builds (held []) place p := by
  have hplace : place ∈ [root, upper, lower] := by
    induction h with
    | refl => decide
    | tail _ hstep ih => exact (closed_isOk_places _ ih).1 _ hstep
  obtain ⟨e, he, hok⟩ := Option.map_eq_some_iff.1 (closed_isOk_places place hplace).2
  rcases hrun : (source.project (e, .file place)).run ⟨{ repository := () }, []⟩ with ⟨r, l'⟩
  rw [hrun] at hok
  cases r with
  | ok p => exact ⟨p, e, _, l', he, faithful_fresh (held []) (), hrun⟩
  | error failure => cases hok

/-- Each of the three projects is read once, and the missing module is noted. -/
theorem readReactor_depthFirst_ring :
    source.repository.Offers (held []) ∧ source.files.working.IsProper ∧
      (∀ place, Relation.ReflTransGen source.LeadsTo (source.files.working.join "pom.xml") place →
        ∃ p, source.Builds (held []) place p) ∧
      ({ repository := () } : Memory Unit).Faithful (held []) ∧
      ∃ (found : List (Location × Project)) (l' : Ledger (Memory Unit)) (added : List Note),
        (source.readReactor "pom.xml").run ⟨{ repository := () }, []⟩ = (.ok (found.map (·.2)), l') ∧
          l'.notes = [] ++ added ∧ (found.map (·.2.location)).Nodup ∧
          (found.map (·.1)).head? = some (source.files.working.join "pom.xml") ∧
          (∀ place, place ∈ found.map (·.1) ↔
            Relation.ReflTransGen source.LeadsTo (source.files.working.join "pom.xml") place) ∧
          DepthFirst source.modulePlaces [] [source.files.working.join "pom.xml"] (found.map (·.1)) ∧
          (∀ f ∈ found, source.Builds (held []) f.1 f.2 ∧ f.2.location = some f.1.text) ∧
          (found.flatMap source.missingModules).Subperm added := by
  have hoffers : source.repository.Offers (held []) := @offers_held Unit [] (by decide)
  have hworking : source.files.working.IsProper := by
    unfold Location.IsProper
    decide
  have hfresh : ({ repository := () } : Memory Unit).Faithful (held []) := faithful_fresh (held []) ()
  exact ⟨hoffers, hworking, fun _ => builds_reached, hfresh,
    Source.readReactor_depthFirst hoffers hworking (fun _ => builds_reached) hfresh⟩

end Ring

end VersionAudit.Pom
